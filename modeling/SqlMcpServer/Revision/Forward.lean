import SqlMcpServer.Revision.Refinement
import SqlMcpServer.Revision.Operations

namespace SqlMcpServer.Revisions

open List Option

/-- The nearest ancestor of a revision that was published, itself included; 0 for none. -/
inductive Nearest (m : MemoryStore) : Int → Int → Prop where
  | published {id : Int} {r : Revision} (hr : m.get? id = some r) (h : r.state.isUnpublished = false) : Nearest m id id
  | root {id : Int} {r : Revision} (hr : m.get? id = some r) (h : r.state.isUnpublished = true) (hp : r.parentID = 0) :
      Nearest m id 0
  | parent {id x : Int} {r : Revision} (hr : m.get? id = some r) (h : r.state.isUnpublished = true)
      (hp : r.parentID ≠ 0) (hn : Nearest m r.parentID x) : Nearest m id x

namespace MemoryStore

def Parents (m : MemoryStore) : Prop :=
  ∀ id r, m.get? id = some r → r.parentID = 0 ∨ r.parentID < id ∧ (m.get? r.parentID).isSome = true

def Ever (m : MemoryStore) : Prop := ∀ id r, m.get? id = some r → r.state.isUnpublished = false → m.publishedID ≠ 0

structure Forward (m m' : MemoryStore) : Prop where
  kept : ∀ id r, m.get? id = some r → ∃ r', m'.get? id = some r' ∧ r'.parentID = r.parentID ∧
    (r.state.isUnpublished = false → r'.state.isUnpublished = false) ∧
    (m'.publishedID = m.publishedID → r'.state.isUnpublished = r.state.isUnpublished)
  published : m.publishedID ≤ m'.publishedID

section
variable {m m' : MemoryStore} {id x : Int} {r : Revision}

lemma Forward.refl (m : MemoryStore) : Forward m m :=
  ⟨fun _ r hr => ⟨r, hr, rfl, id, fun _ => rfl⟩, Int.le_refl _⟩

lemma get?_of_mem (hwf : m.WF) (hr : r ∈ m.revs) : m.get? r.id = some r := Keyed.find_of_mem hwf.ids hr

lemma publishedID_of_mem (hwf : m.WF) (hr : r ∈ m.revs) (hp : r.state = .published) : m.publishedID = r.id := by
  cases hfind : m.published? with
  | none =>
    have := find?_eq_none.mp hfind r hr
    simp [hp] at this
  | some p =>
    obtain ⟨hpmem, hpstate⟩ := published?_mem hfind
    rw [publishedID, hfind, getD_some, hwf.one p hpmem r hr hpstate hp]

lemma publishedID_of_none (h : ∀ r ∈ m.revs, r.state ≠ .published) : m.publishedID = 0 := by
  have hfind : m.published? = none := by
    refine find?_eq_none.mpr fun r hr => ?_
    simpa using h r hr
  rw [publishedID, hfind]
  rfl

lemma publishedID_congr (hwf : m.WF) (hwf' : m'.WF) (h : ∀ r : Revision, r.state = .published → (r ∈ m'.revs ↔ r ∈ m.revs)) :
    m'.publishedID = m.publishedID := by
  by_cases hp : ∃ r ∈ m.revs, r.state = .published
  · obtain ⟨r, hr, hstate⟩ := hp
    rw [publishedID_of_mem hwf hr hstate, publishedID_of_mem hwf' ((h r hstate).mpr hr) hstate]
  · push Not at hp
    rw [publishedID_of_none hp, publishedID_of_none]
    exact fun r hr hstate => hp r ((h r hstate).mp hr) hstate

lemma published_of_publishedID (hwf : m.WF) (h : m.publishedID = id) (hpos : 0 < id) :
    ∃ r ∈ m.revs, r.id = id ∧ r.state = .published := by
  cases hfind : m.published? with
  | none =>
    rw [publishedID, hfind] at h
    simp only [getD_none, Revision.zero] at h
    omega
  | some p =>
    obtain ⟨hpmem, hpstate⟩ := published?_mem hfind
    rw [publishedID, hfind] at h
    exact ⟨p, hpmem, h, hpstate⟩

lemma Grows.forward (hwf : m.WF) (h : Grows m m') (hle : m.publishedID ≤ m'.publishedID) : Forward m m' := by
  refine ⟨fun id r hr => ?_, hle⟩
  obtain ⟨hmem, rfl⟩ := get?_mem hr
  obtain ⟨r', hr', hb⟩ := h.kept r hmem
  refine ⟨r', hb.id ▸ get?_of_mem h.wf hr', hb.parentID, fun hpub => ?_, fun hsame => ?_⟩
  · rcases hb.state with heq | ⟨hdraft, _⟩ | ⟨_, heq | heq⟩
    · rw [heq, hpub]
    · simp [RevState.isUnpublished, hdraft] at hpub
    · rw [heq]
      rfl
    · rw [heq]
      rfl
  · rcases hb.state with heq | ⟨hdraft, heq | heq⟩ | ⟨hpub, heq | heq⟩
    · rw [heq]
    · -- A draft that got published would be what is published now.
      have hid : m.publishedID = r.id := by rw [← hsame, publishedID_of_mem h.wf hr' heq, hb.id]
      obtain ⟨p, hp, hpid, hpstate⟩ := published_of_publishedID hwf hid (hwf.pos r hmem)
      rw [Keyed.eq_of_key hwf.ids hp hmem hpid, hdraft] at hpstate
      cases hpstate
    · rw [heq, hdraft]
      rfl
    · rw [heq, hpub]
      rfl
    · rw [heq, hpub]
      rfl

lemma nearest_forward (hf : Forward m m') (hsame : m'.publishedID = m.publishedID) (h : Nearest m id x) : Nearest m' id x := by
  induction h with
  | published hr hpub =>
    obtain ⟨r', hr', _, hstay, _⟩ := hf.kept _ _ hr
    exact .published hr' (hstay hpub)
  | root hr hun hp =>
    obtain ⟨r', hr', hparent, _, hun'⟩ := hf.kept _ _ hr
    exact .root hr' ((hun' hsame).trans hun) (hparent.trans hp)
  | parent hr hun hp _ ih =>
    obtain ⟨r', hr', hparent, _, hun'⟩ := hf.kept _ _ hr
    exact .parent hr' ((hun' hsame).trans hun) (hparent ▸ hp) (hparent ▸ ih)

lemma nearest_backward (hf : Forward m m') (hsame : m'.publishedID = m.publishedID) (hparents : m.Parents)
    (hmem : (m.get? id).isSome = true) (h : Nearest m' id x) : Nearest m id x := by
  induction h with
  | @published id r' hr' hpub =>
    obtain ⟨r, hr⟩ := isSome_iff_exists.mp hmem
    obtain ⟨q, hq, _, _, hun⟩ := hf.kept id r hr
    rw [hr', some.injEq] at hq
    exact .published hr (by rw [← hun hsame, ← hq, hpub])
  | @root id r' hr' hun' hp =>
    obtain ⟨r, hr⟩ := isSome_iff_exists.mp hmem
    obtain ⟨q, hq, hparent, _, hun⟩ := hf.kept id r hr
    rw [hr', some.injEq] at hq
    exact .root hr (by rw [← hun hsame, ← hq, hun']) (by rw [← hparent, ← hq, hp])
  | @parent id x r' hr' hun' hp _ ih =>
    obtain ⟨r, hr⟩ := isSome_iff_exists.mp hmem
    obtain ⟨q, hq, hparent, _, hun⟩ := hf.kept id r hr
    rw [hr', some.injEq] at hq
    subst hq
    rw [hparent] at hp ih
    have hup := (hparents id r hr).resolve_left hp
    exact .parent hr (by rw [← hun hsame, hun']) hp (ih hup.2)

lemma nearest_lt (hwf : m.WF) (hparents : m.Parents) (h : Nearest m id x) :
    x ≤ id ∧ ∀ r, m.get? id = some r → r.state.isUnpublished = true → x < id := by
  induction h with
  | published hr hpub =>
    refine ⟨Int.le_refl _, fun r hr' hun => ?_⟩
    rw [hr, some.injEq] at hr'
    rw [hr', hun] at hpub
    cases hpub
  | root hr _ _ =>
    obtain ⟨hmem, rfl⟩ := get?_mem hr
    have := hwf.pos _ hmem
    exact ⟨by omega, fun _ _ _ => by omega⟩
  | parent hr _ hp _ ih =>
    have hlt := ((hparents _ _ hr).resolve_left hp).1
    exact ⟨by omega, fun _ _ _ => by omega⟩

lemma nearest_zero (hwf : m.WF) (hparents : m.Parents) (hun : ∀ id r, m.get? id = some r → r.state.isUnpublished = true)
    (n : Nat) (hr : m.get? id = some r) (hn : id.toNat ≤ n) : Nearest m id 0 := by
  induction n generalizing id r with
  | zero =>
    obtain ⟨hmem, rfl⟩ := get?_mem hr
    have := hwf.pos r hmem
    omega
  | succ n ih =>
    rcases hparents id r hr with hroot | ⟨hlt, hsome⟩
    · exact .root hr (hun id r hr) hroot
    · by_cases hzero : r.parentID = 0
      · exact .root hr (hun id r hr) hzero
      · obtain ⟨p, hp⟩ := isSome_iff_exists.mp hsome
        exact .parent hr (hun id r hr) hzero (ih hp (by omega))

structure Good (m : MemoryStore) : Prop where
  wf : m.WF
  parents : m.Parents
  ever : m.Ever

lemma parents_of_grows (hgood : m.Good) (hgrows : Grows m m')
    (hnew : ∀ r' ∈ m'.revs, m.nextID ≤ r'.id → r'.parentID = 0 ∨ (m.get? r'.parentID).isSome = true) : m'.Parents := by
  have hkept : ∀ id, (m.get? id).isSome = true → (m'.get? id).isSome = true := by
    intro id hsome
    obtain ⟨r, hr⟩ := isSome_iff_exists.mp hsome
    obtain ⟨hmem, rfl⟩ := get?_mem hr
    obtain ⟨r', hr', hb⟩ := hgrows.kept r hmem
    rw [← hb.id, get?_of_mem hgrows.wf hr']
    rfl
  intro id r' hr'
  obtain ⟨hmem', rfl⟩ := get?_mem hr'
  rcases hgrows.added r' hmem' with ⟨r, hr, hb⟩ | hge
  · rw [hb.parentID, hb.id]
    refine (hgood.parents r.id r (get?_of_mem hgood.wf hr)).imp_right fun h => ⟨h.1, hkept _ h.2⟩
  · refine (hnew r' hmem' hge).imp_right fun hsome => ⟨?_, hkept _ hsome⟩
    obtain ⟨p, hp⟩ := isSome_iff_exists.mp hsome
    obtain ⟨hpmem, hpid⟩ := get?_mem hp
    have := hgood.wf.fresh p hpmem
    omega

lemma ever_of_grows (hgood : m.Good) (hgrows : Grows m m') (hsame : m'.publishedID = m.publishedID)
    (hnew : ∀ r' ∈ m'.revs, m.nextID ≤ r'.id → r'.state.isUnpublished = true) : m'.Ever := by
  intro id r' hr' hpub
  obtain ⟨hmem', rfl⟩ := get?_mem hr'
  have hforward := hgrows.forward hgood.wf (Int.le_of_eq hsame.symm)
  rcases hgrows.added r' hmem' with ⟨r, hr, hb⟩ | hge
  · have hget := get?_of_mem hgood.wf hr
    obtain ⟨q, hq, _, _, hun⟩ := hforward.kept _ _ hget
    rw [← hb.id, get?_of_mem hgrows.wf hmem', some.injEq] at hq
    rw [hsame]
    exact hgood.ever _ _ hget (by rw [← hun hsame, ← hq, hpub])
  · rw [hnew r' hmem' hge] at hpub
    cases hpub

structure Quiet (m m' : MemoryStore) : Prop where
  good : m'.Good
  forward : Forward m m'
  published : m'.publishedID = m.publishedID

lemma Quiet.refl (hgood : m.Good) : Quiet m m := ⟨hgood, .refl m, rfl⟩

lemma create_quiet (hash : Payload → String) (now : Int) (d : Draft) (hgood : m.Good)
    (hparent : d.parentID = 0 ∨ (m.get? d.parentID).isSome = true) : Quiet m (m.create hash now d).2 := by
  have hgrows := create_grows hash now d hgood.wf
  rw [create_eq hash now d hgood.wf]
  have hsame : MemoryStore.publishedID ⟨m.revs ++ [newDraft hash m.nextID d now], m.nextID + 1, m.seq + 1⟩ = m.publishedID := by
    refine publishedID_congr hgood.wf hgrows.wf fun r hr => ?_
    rw [mem_append, mem_singleton]
    refine or_iff_left ?_
    rintro rfl
    cases hr
  have honly : ∀ r' ∈ m.revs ++ [newDraft hash m.nextID d now], m.nextID ≤ r'.id → r' = newDraft hash m.nextID d now := by
    intro r' hr' hge
    rcases mem_append.mp hr' with hr' | hr'
    · exact absurd (hgood.wf.fresh r' hr') (Int.not_lt.mpr hge)
    · exact mem_singleton.mp hr'
  refine ⟨⟨hgrows.wf, parents_of_grows hgood hgrows fun r' hr' hge => ?_,
    ever_of_grows hgood hgrows hsame fun r' hr' hge => ?_⟩, hgrows.forward hgood.wf (Int.le_of_eq hsame.symm), hsame⟩
  · rw [honly r' hr' hge]
    exact hparent
  · rw [honly r' hr' hge]
    rfl

lemma discard_quiet (hgood : m.Good) : Quiet m (m.discard id).2 := by
  cases ht : m.get? id with
  | none => simpa [discard, ht] using Quiet.refl hgood
  | some target =>
    by_cases hdraft : target.state = .draft
    · have hgrows := discard_grows hgood.wf ht hdraft
      rw [discard_eq hgood.wf ht hdraft]
      have hsame : MemoryStore.publishedID ⟨setState id .discarded m.revs, m.nextID, m.seq + 1⟩ = m.publishedID := by
        obtain ⟨hmem, rfl⟩ := get?_mem ht
        refine publishedID_congr hgood.wf hgrows.wf fun r hr => ⟨fun h => ?_, fun h => Keyed.mem_update.mpr ⟨r, h, ?_⟩⟩
        · obtain ⟨x, hx, rfl⟩ := Keyed.mem_update.mp h
          split_ifs at hr ⊢
          · cases hr
          · exact hx
        · refine (if_neg fun heq => ?_).symm
          rw [Keyed.eq_of_key hgood.wf.ids h hmem heq, hdraft] at hr
          cases hr
      have hold : ∀ r' ∈ setState id .discarded m.revs, ¬ m.nextID ≤ r'.id := fun r' hr' => Int.not_le.mpr (hgrows.wf.fresh r' hr')
      exact ⟨⟨hgrows.wf, parents_of_grows hgood hgrows fun r' hr' hge => absurd hge (hold r' hr'),
        ever_of_grows hgood hgrows hsame fun r' hr' hge => absurd hge (hold r' hr')⟩,
        hgrows.forward hgood.wf (Int.le_of_eq hsame.symm), hsame⟩
    · simpa [discard, ht, hdraft] using Quiet.refl hgood

structure Publishes (m m' : MemoryStore) (id : Int) : Prop where
  good : m'.Good
  forward : Forward m m'
  published : m'.publishedID = id
  replaced : m.publishedID < id

lemma Publishes.of_grows (hgood : m.Good) (hgrows : Grows m m') (hr : r ∈ m'.revs) (hp : r.state = .published)
    (hlt : m.publishedID < r.id)
    (hnew : ∀ r' ∈ m'.revs, m.nextID ≤ r'.id → r'.parentID = 0 ∨ (m.get? r'.parentID).isSome = true) : Publishes m m' r.id := by
  have hid := publishedID_of_mem hgrows.wf hr hp
  have hpos := hgrows.wf.pos r hr
  refine ⟨⟨hgrows.wf, parents_of_grows hgood hgrows hnew, fun _ _ _ _ => ?_⟩, ?_, hid, hlt⟩
  · omega
  · exact hgrows.forward hgood.wf (by omega)

lemma publishedID_of_checkCurrent (hwf : m.WF) {expected : Int} {current : Revision}
    (hc : m.checkCurrent expected = .ok current) : m.publishedID = expected := by
  obtain ⟨hid, ⟨_, hp, _⟩ | ⟨hzero, hnone⟩⟩ := checkCurrent_ok hwf hc
  · rw [publishedID, hp]
    exact hid
  · rw [publishedID, hnone, hzero]
    rfl

lemma publish_cases (hwf : m.WF) (now expected : Int) :
    (∃ e, m.publish now id expected = (.error e, m)) ∨
    ∃ target current, m.get? id = some target ∧ target.state = .draft ∧ m.checkCurrent expected = .ok current ∧
      m.publish now id expected = (.ok (target.publishedAs (timestamp now)),
        ⟨setPublished id (timestamp now) (supersede current.id m.revs), m.nextID, m.seq + 1⟩) := by
  cases ht : m.get? id with
  | none => exact .inl ⟨_, by simp [publish, ht]; rfl⟩
  | some target =>
    by_cases hdraft : target.state = .draft
    · cases hc : m.checkCurrent expected with
      | error e => exact .inl ⟨e, by simp [publish, ht, hdraft, hc]⟩
      | ok current => exact .inr ⟨target, current, rfl, hdraft, rfl, publish_eq hwf ht hdraft hc now⟩
    · exact .inl ⟨_, by simp [publish, ht, hdraft]; rfl⟩

lemma publish_publishes (hgood : m.Good) {target current : Revision} (ht : m.get? id = some target)
    (hdraft : target.state = .draft) {expected : Int} (hc : m.checkCurrent expected = .ok current) (now : Int)
    (hlt : expected < id) :
    Publishes m ⟨setPublished id (timestamp now) (supersede current.id m.revs), m.nextID, m.seq + 1⟩ id := by
  have hgrows := publish_grows hgood.wf ht hdraft hc (timestamp now)
  have hpub := publishedID_of_checkCurrent hgood.wf hc
  obtain ⟨hmem, rfl⟩ := get?_mem ht
  obtain ⟨r', hr', hb⟩ := hgrows.kept target hmem
  have hstate : r'.state = .published := by
    obtain ⟨x, hx, rfl⟩ := Keyed.mem_update.mp hr'
    have hid : x.id = target.id := by
      have := hb.id
      split_ifs at this with h
      · exact h
      · exact this
    rw [if_pos hid]
    rfl
  have := Publishes.of_grows hgood hgrows hr' hstate (by rw [hpub, hb.id]; exact hlt)
    fun r' hr' hge => absurd (hgrows.wf.fresh r' hr') (Int.not_lt.mpr hge)
  rwa [hb.id] at this

lemma rollback_cases (hgood : m.Good) (now expected target : Int) (who : Meta) :
    (∃ e, m.rollback now expected target who = (.error e, m)) ∨
    ∃ rev, (m.rollback now expected target who).1 = .ok rev ∧
      Publishes m (m.rollback now expected target who).2 rev.id := by
  by_cases hne : expected = 0
  · exact .inl ⟨_, by simp [rollback, hne]; rfl⟩
  cases hc : m.checkCurrent expected with
  | error e => exact .inl ⟨e, by simp [rollback, hne, hc]⟩
  | ok current =>
    cases hs : rollbackTarget m.revs current target with
    | error e => exact .inl ⟨e, by simp [rollback, hne, hc, hs]⟩
    | ok source =>
      have hgrows := rollback_grows hgood.wf hne hc source now who
      rw [rollback_eq hgood.wf hne hc hs]
      have hid := (checkCurrent_ok hgood.wf hc).1
      refine .inr ⟨_, rfl, Publishes.of_grows hgood hgrows (mem_append_right _ (mem_singleton_self _)) rfl ?_
        fun r' hr' hge => ?_⟩
      · rw [publishedID_of_checkCurrent hgood.wf hc, ← hid]
        exact hgood.wf.fresh current (current_mem hgood.wf hc (hid ▸ hne)).1
      · rcases mem_append.mp hr' with hr' | hr'
        · exact absurd ((update_wf current.id hgood.wf (Revision.inState .rolledBack) fun _ => rfl).2 r' hr').2 (Int.not_lt.mpr hge)
        · rw [mem_singleton.mp hr']
          refine .inr ?_
          rw [rolledBackTo, get?_of_mem hgood.wf (rollbackTarget_mem hs)]
          rfl

end

end MemoryStore

def Known (m : MemoryStore) (r : Revision) : Prop :=
  ∃ r', m.get? r.id = some r' ∧ r'.parentID = r.parentID ∧ (r.state.isUnpublished = false → r'.state.isUnpublished = false)

/-- While nothing was published since the current revision was read, the walk is at a revision as
it still is, with the draft's nearest published ancestor. -/
structure Walked (m : MemoryStore) (target rev : Revision) : Prop where
  fresh : rev.id = target.id ∨ ∀ r', m.get? rev.id = some r' → r'.state.isUnpublished = rev.state.isUnpublished
  nearest : ∀ t', m.get? target.id = some t' → t'.state.isUnpublished = true →
    ∀ x, Nearest m rev.id x → Nearest m target.id x

def OpPC.Fact (m : MemoryStore) : OpPC → Prop
  | .drafting req => req.parent = 0 ∨ (m.get? req.parent).isSome = true
  | .creating _ parent => parent = 0 ∨ (m.get? parent).isSome = true
  | .gotTarget _ target => Known m target
  | .walking _ target current rev _ =>
    Known m target ∧ Known m rev ∧ current.id ≤ m.publishedID ∧ (m.publishedID = current.id → Walked m target rev)
  | .readyToPublish _ target current =>
    Known m target ∧ current.id ≤ m.publishedID ∧ (current.id ≠ 0 → m.publishedID = current.id →
      ∀ t', m.get? target.id = some t' → t'.state.isUnpublished = true → Nearest m target.id current.id)
  | _ => True

section
variable {m m' : MemoryStore} {target rev : Revision}

lemma Known.of_get {id : Int} {r : Revision} (h : m.get? id = some r) : Known m r := by
  obtain ⟨_, rfl⟩ := MemoryStore.get?_mem h
  exact ⟨r, h, rfl, id⟩

lemma isSome_forward (hf : m.Forward m') {id : Int} (h : (m.get? id).isSome = true) : (m'.get? id).isSome = true := by
  obtain ⟨r, hr⟩ := isSome_iff_exists.mp h
  obtain ⟨r', hr', _⟩ := hf.kept id r hr
  simp [hr']

lemma Known.forward (hf : m.Forward m') (h : Known m rev) : Known m' rev := by
  obtain ⟨r, hr, hparent, hpub⟩ := h
  obtain ⟨r', hr', hparent', hpub', _⟩ := hf.kept _ r hr
  exact ⟨r', hr', hparent'.trans hparent, hpub' ∘ hpub⟩

lemma Walked.forward (hf : m.Forward m') (hsame : m'.publishedID = m.publishedID) (hparents : m.Parents)
    (htarget : Known m target) (hrev : Known m rev) (h : Walked m target rev) : Walked m' target rev := by
  obtain ⟨r, hr, _⟩ := hrev
  obtain ⟨t, ht, _⟩ := htarget
  refine ⟨h.fresh.imp_right fun hfresh r' hr' => ?_, fun t' ht' hun x hx => ?_⟩
  · obtain ⟨q, hq, _, _, hstate⟩ := hf.kept _ r hr
    rw [hr', some.injEq] at hq
    rw [hq, hstate hsame, hfresh r hr]
  · obtain ⟨q, hq, _, _, hstate⟩ := hf.kept _ t ht
    rw [ht', some.injEq] at hq
    have hun' : t.state.isUnpublished = true := by rw [← hstate hsame, ← hq, hun]
    refine MemoryStore.nearest_forward hf hsame (h.nearest t ht hun' x ?_)
    exact MemoryStore.nearest_backward hf hsame hparents (by simp [hr]) hx

lemma OpPC.Fact.forward {p : OpPC} (hf : m.Forward m') (hparents : m.Parents) (h : p.Fact m) : p.Fact m' := by
  have hle := hf.published
  cases p with
  | drafting req => exact h.imp_right (isSome_forward hf)
  | creating _ parent => exact h.imp_right (isSome_forward hf)
  | gotTarget _ target => exact Known.forward hf h
  | walking _ target current rev _ =>
    obtain ⟨htarget, hrev, hcurrent, hwalked⟩ := h
    refine ⟨htarget.forward hf, hrev.forward hf, by omega, fun hsame => ?_⟩
    exact (hwalked (by omega)).forward hf (by omega) hparents htarget hrev
  | readyToPublish _ target current =>
    obtain ⟨htarget, hcurrent, hnearest⟩ := h
    refine ⟨htarget.forward hf, by omega, fun hne hsame t' ht' hun => ?_⟩
    -- The published ID did not move, so the draft is as it was.
    have hsame' : m'.publishedID = m.publishedID := by omega
    obtain ⟨t, ht, _⟩ := htarget
    obtain ⟨q, hq, _, _, hstate⟩ := hf.kept _ t ht
    rw [ht', some.injEq] at hq
    exact MemoryStore.nearest_forward hf hsame' (hnearest hne (by omega) t ht (by rw [← hstate hsame', ← hq, hun]))
  | idle | publishing _ | rolling _ | gotCurrent _ _ | chose _ _ _ | readyToRollback _ _ _ => trivial

end

structure OpInv (s : OpState) : Prop where
  good : s.store.Good
  pcs : ∀ i, (s.pc i).Fact s.store

/-- A step publishes nothing, or it publishes a later revision in place of the published one,
which is what a draft builds on. -/
def MovesForward (s s' : OpState) : Prop :=
  s'.log = s.log ∧ s'.store.publishedID = s.store.publishedID ∨
  ∃ id, s'.store.publishedID = id ∧ s.store.publishedID < id ∧
    (s'.log = .publish id s.store.publishedID :: s.log ∧ Nearest s.store id s.store.publishedID ∨
      s'.log = .rollback id s.store.publishedID :: s.log)

section
variable {hash : Payload → String} {checkPublishable : Revision → Revision → Bool → Bool} {s s' : OpState} {i : Caller}

lemma OpInv.goto (hi : OpInv s) {p : OpPC} (hp : p.Fact s.store) : OpInv (s.goto i p) := by
  refine ⟨hi.good, fun j => ?_⟩
  by_cases hj : j = i
  · subst hj
    simpa [OpState.goto] using hp
  · simpa [OpState.goto, Function.update_of_ne hj] using hi.pcs j

lemma OpInv.withStore (hi : OpInv s) {m' : MemoryStore} (hgood : m'.Good) (hf : s.store.Forward m') (log : List PublishEvent) :
    OpInv ⟨m', s.pc, log⟩ :=
  ⟨hgood, fun j => (hi.pcs j).forward hf hi.good.parents⟩

lemma OpInv.reads (hi : OpInv s) {p : OpPC} (hp : p.Fact s.store) : OpInv (s.goto i p) ∧ MovesForward s (s.goto i p) :=
  ⟨hi.goto hp, .inl ⟨rfl, rfl⟩⟩

lemma OpInv.quiet (hi : OpInv s) {m' : MemoryStore} (hq : s.store.Quiet m') :
    OpInv ({ s with store := m' }.goto i .idle) ∧ MovesForward s ({ s with store := m' }.goto i .idle) :=
  ⟨(hi.withStore hq.good hq.forward s.log).goto trivial, .inl ⟨rfl, hq.published⟩⟩

lemma OpInv.fact (hi : OpInv s) {p : OpPC} (hpc : s.pc i = p) : p.Fact s.store := hpc ▸ hi.pcs i

lemma publishedID_getD (m : MemoryStore) : (m.published?.getD .zero).id = m.publishedID := rfl

lemma stepReadForDraft_forward (hi : OpInv s) (h : stepReadForDraft hash s i = some s') : OpInv s' ∧ MovesForward s s' := by
  unfold stepReadForDraft at h
  split at h
  · rename_i req hpc
    have hfact := hi.fact hpc
    simp only at h
    split_ifs at h with hskip hparent <;> cases h
    · exact hi.reads trivial
    · refine hi.reads ?_
      cases hp : s.store.published? with
      | none => exact .inl rfl
      | some r =>
        refine .inr ?_
        rw [getD_some, MemoryStore.get?_of_mem hi.good.wf (MemoryStore.published?_mem hp).1]
        rfl
    · exact hi.reads hfact
  · cases h

lemma stepCreate_forward {now : Int} (hi : OpInv s) (h : stepCreate hash s i now = some s') : OpInv s' ∧ MovesForward s s' := by
  unfold stepCreate at h
  split at h
  · rename_i req parent hpc
    cases h
    exact hi.quiet (MemoryStore.create_quiet hash now _ hi.good (hi.fact hpc))
  · cases h

lemma stepGetTarget_forward (hi : OpInv s) (h : stepGetTarget s i = some s') : OpInv s' ∧ MovesForward s s' := by
  unfold stepGetTarget at h
  split at h
  · rename_i req hpc
    unfold MemoryStore.get at h
    cases hget : s.store.get? req.id with
    | none =>
      rw [hget] at h
      cases h
      exact hi.reads trivial
    | some target =>
      rw [hget] at h
      cases h
      exact hi.reads (Known.of_get hget)
  · cases h

lemma stepReadForPublish_forward (hi : OpInv s) (h : stepReadForPublish s i = some s') : OpInv s' ∧ MovesForward s s' := by
  unfold stepReadForPublish at h
  split at h
  · rename_i req target hpc
    have hknown := hi.fact hpc
    simp only at h
    split_ifs at h <;> cases h
    · exact hi.reads trivial
    · refine hi.reads ⟨hknown, hknown, Int.le_of_eq (publishedID_getD _), fun _ => ⟨.inl rfl, fun _ _ _ _ hx => hx⟩⟩
  · cases h

lemma afterWalk_forward (hi : OpInv s) {req : PublishRequest} {target current : Revision} {basedOn : Int}
    (htarget : Known s.store target) (hcurrent : current.id ≤ s.store.publishedID)
    (hnearest : current.id ≠ 0 → basedOn = current.id → s.store.publishedID = current.id →
      ∀ t', s.store.get? target.id = some t' → t'.state.isUnpublished = true → Nearest s.store target.id current.id) :
    OpInv (afterWalk checkPublishable s i req target current basedOn) ∧
      MovesForward s (afterWalk checkPublishable s i req target current basedOn) := by
  unfold afterWalk
  split_ifs with hother hcheck
  · exact hi.reads trivial
  · refine hi.reads ⟨htarget, hcurrent, fun hne hsame => hnearest hne ?_ hsame⟩
    by_contra hbased
    exact hother ⟨hne, hbased⟩
  · exact hi.reads trivial

lemma stepWalk_forward (hi : OpInv s) (h : stepWalk checkPublishable s i = some s') : OpInv s' ∧ MovesForward s s' := by
  unfold stepWalk at h
  split at h
  · rename_i req target current rev seen hpc
    obtain ⟨htarget, hrev, hcurrent, hwalked⟩ := hi.fact hpc
    obtain ⟨r', hr', hparent', hpub'⟩ := hrev
    by_cases hun : rev.state.isUnpublished = true
    · rw [if_pos hun] at h
      by_cases hend : rev.parentID = 0 ∨ rev.parentID ∈ seen
      · rw [if_pos hend] at h
        cases h
        exact afterWalk_forward hi htarget hcurrent fun hne hzero => absurd hzero.symm hne
      · rw [if_neg hend] at h
        unfold MemoryStore.get at h
        cases hget : s.store.get? rev.parentID with
        | none =>
          rw [hget] at h
          cases h
          exact hi.reads trivial
        | some parent =>
          rw [hget] at h
          cases h
          obtain ⟨_, hid⟩ := MemoryStore.get?_mem hget
          refine hi.reads ⟨htarget, .of_get hget, hcurrent, fun hsame => ⟨.inr fun q hq => ?_, fun t' ht' ht'un x hx => ?_⟩⟩
          · rw [hid, hget, some.injEq] at hq
            rw [hq]
          · have hwalked := hwalked hsame
            -- The revision the walk leaves is still one that was never published.
            have hstill : r'.state.isUnpublished = true := by
              rcases hwalked.fresh with hsameid | hfresh
              · rw [hsameid, ht', some.injEq] at hr'
                rw [← hr', ht'un]
              · rw [hfresh r' hr', hun]
            refine hwalked.nearest t' ht' ht'un x (.parent hr' hstill ?_ ?_)
            · rw [hparent']
              exact fun hzero => hend (.inl hzero)
            · rw [hparent', ← hid]
              exact hx
    · rw [if_neg hun] at h
      cases h
      refine afterWalk_forward hi htarget hcurrent fun _ hbased hsame t' ht' ht'un => ?_
      have hpub := hpub' (eq_false_of_ne_true hun)
      rw [← hbased]
      exact (hwalked hsame).nearest t' ht' ht'un rev.id (.published hr' hpub)
  · cases h

lemma stepStorePublish_forward {now : Int} (hi : OpInv s) (h : stepStorePublish s i now = some s') :
    OpInv s' ∧ MovesForward s s' := by
  unfold stepStorePublish at h
  split at h
  · rename_i req target current hpc
    obtain ⟨_, _, hnearest⟩ := hi.fact hpc
    rcases MemoryStore.publish_cases hi.good.wf now current.id with ⟨e, he⟩ | ⟨t', c, ht', hdraft, hc, heq⟩
    · rw [he] at h
      cases h
      exact hi.quiet (.refl hi.good)
    · rw [heq] at h
      cases h
      have hpub := MemoryStore.publishedID_of_checkCurrent hi.good.wf hc
      have hun : t'.state.isUnpublished = true := by rw [hdraft]; rfl
      have hbased : Nearest s.store target.id current.id := by
        by_cases hzero : current.id = 0
        · rw [hzero]
          refine MemoryStore.nearest_zero hi.good.wf hi.good.parents (fun id r hr => ?_) _ ht' (Nat.le_refl _)
          by_contra hne
          exact hi.good.ever id r hr (eq_false_of_ne_true hne) (by rw [hpub, hzero])
        · exact hnearest hzero hpub t' ht' hun
      have hlt := (MemoryStore.nearest_lt hi.good.wf hi.good.parents hbased).2 t' ht' hun
      have hp := MemoryStore.publish_publishes hi.good ht' hdraft hc now hlt
      have hid : (t'.publishedAs (timestamp now)).id = target.id := (MemoryStore.get?_mem ht').2
      refine ⟨(hi.withStore hp.good hp.forward _).goto trivial, .inr ⟨target.id, hp.published, hp.replaced, .inl ⟨?_, ?_⟩⟩⟩
      · rw [← hid]
        rfl
      · rw [hpub]
        exact hbased
  · cases h

lemma stepStoreRollback_forward {now : Int} (hi : OpInv s) (h : stepStoreRollback s i now = some s') :
    OpInv s' ∧ MovesForward s s' := by
  unfold stepStoreRollback at h
  split at h
  · rename_i req current target hpc
    rcases MemoryStore.rollback_cases hi.good now current.id target.id ⟨req.author, req.comment⟩ with ⟨e, he⟩ | ⟨rev, hrev, hp⟩
    · rw [he] at h
      cases h
      exact hi.quiet (.refl hi.good)
    · generalize hres : s.store.rollback now current.id target.id ⟨req.author, req.comment⟩ = res at h hrev hp
      obtain ⟨result, store⟩ := res
      simp only at hrev hp
      subst hrev
      cases h
      exact ⟨(hi.withStore hp.good hp.forward _).goto trivial, .inr ⟨rev.id, hp.published, hp.replaced, .inr rfl⟩⟩
  · cases h

lemma op_step_forward (hi : OpInv s) {a : OpAction} (h : s.step hash checkPublishable a = some s') :
    OpInv s' ∧ MovesForward s s' := by
  cases a with
  | draft i req =>
    simp only [OpState.step] at h
    split_ifs at h with hcall
    cases h
    exact hi.reads hcall.2
  | readForDraft i => exact stepReadForDraft_forward hi h
  | create i now => exact stepCreate_forward hi h
  | publish i req | rollback i req =>
    simp only [OpState.step] at h
    split_ifs at h
    cases h
    exact hi.reads trivial
  | getTarget i => exact stepGetTarget_forward hi h
  | readForPublish i => exact stepReadForPublish_forward hi h
  | walk i => exact stepWalk_forward hi h
  | storePublish i now => exact stepStorePublish_forward hi h
  | readForRollback i =>
    simp only [OpState.step, stepReadForRollback] at h
    split at h
    · split at h <;> cases h <;> exact hi.reads trivial
    · cases h
  | listForRollback i =>
    simp only [OpState.step, stepListForRollback] at h
    split at h
    · split at h <;> cases h <;> exact hi.reads trivial
    · cases h
  | getChosen i =>
    simp only [OpState.step, stepGetChosen] at h
    split at h
    · split at h
      · split_ifs at h <;> cases h <;> exact hi.reads trivial
      · cases h
        exact hi.reads trivial
    · cases h
  | storeRollback i now => exact stepStoreRollback_forward hi h
  | discard id =>
    cases h
    have hq : s.store.Quiet (s.store.discard id).2 := MemoryStore.discard_quiet hi.good
    exact ⟨hi.withStore hq.good hq.forward s.log, .inl ⟨rfl, hq.published⟩⟩
  | fail i =>
    cases h
    exact hi.reads trivial

end

lemma opInv_init : OpInv .init :=
  ⟨⟨MemoryStore.wf_empty, by simp [MemoryStore.Parents, OpState.init, MemoryStore.get?, MemoryStore.empty, Keyed.find],
    by simp [MemoryStore.Ever, OpState.init, MemoryStore.get?, MemoryStore.empty, Keyed.find]⟩, fun _ => trivial⟩

/-- In every run of drafts, publishes, rollbacks and discards by any number of callers, each
step that publishes anything publishes a later revision than the one published before, and
a draft only in place of its nearest published ancestor. -/
theorem publishing_moves_forward (hash : Payload → String) (checkPublishable : Revision → Revision → Bool → Bool)
    {s s' : OpState} {a : OpAction}
    (hs : Transition.Reachable (OpState.step hash checkPublishable) (fun _ => True) .init s)
    (h : s.step hash checkPublishable a = some s') :
    s'.log = s.log ∧ s'.store.publishedID = s.store.publishedID ∨
    ∃ id, s'.store.publishedID = id ∧ s.store.publishedID < id ∧
      (s'.log = .publish id s.store.publishedID :: s.log ∧ Nearest s.store id s.store.publishedID ∨
        s'.log = .rollback id s.store.publishedID :: s.log) := by
  have hi : OpInv s := hs.invariant opInv_init fun _ _ _ hi _ _ hstep => (op_step_forward hi hstep).1
  exact (op_step_forward hi h).2

def twoPublishes : List OpAction :=
  [.draft 0 ⟨[], 0, "admin", "", false⟩, .readForDraft 0, .create 0 1000,
    .publish 0 ⟨1, false, none, "admin"⟩, .getTarget 0, .readForPublish 0, .walk 0, .storePublish 0 2000,
    .draft 0 ⟨[], 0, "admin", "", false⟩, .readForDraft 0, .create 0 3000,
    .publish 0 ⟨2, false, none, "admin"⟩, .getTarget 0, .readForPublish 0, .walk 0, .walk 0]

theorem publishing_moves_forward_second : ∃ s s' : OpState,
    s.step (fun _ => "") (fun _ _ _ => true) (.storePublish 0 4000) = some s' ∧ s.store.publishedID = 1 ∧
      1 < s'.store.publishedID := by
  let step := OpState.step (fun _ => "") (fun _ _ _ => true)
  have hrun : ((Transition.run step .init twoPublishes).bind fun s =>
      (step s (.storePublish 0 4000)).map fun s' => (s.store.publishedID, s.log, s'.log)) =
      some (1, [.publish 1 0], [.publish 2 1, .publish 1 0]) := by decide
  obtain ⟨s, hs, hstep⟩ := bind_eq_some_iff.mp hrun
  obtain ⟨s', hs', hlog⟩ := map_eq_some_iff.mp hstep
  simp only [Prod.mk.injEq] at hlog
  refine ⟨s, s', hs', hlog.1, ?_⟩
  have hreach := Transition.reachable_of_run (.start trivial) hs
  rcases publishing_moves_forward _ _ hreach hs' with ⟨hsame, _⟩ | ⟨id, hid, hlt, _⟩
  · rw [hlog.2.1, hlog.2.2] at hsame
    cases hsame
  · rw [hlog.1] at hlt
    rw [hid]
    exact hlt

end SqlMcpServer.Revisions
