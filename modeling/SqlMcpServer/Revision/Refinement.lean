import SqlMcpServer.Revision.Laws
import SqlMcpServer.Revision.SqlStore

namespace SqlMcpServer.Revisions

open List Keyed
open Except (refuseIf ok_bind)

variable {r : Revision}

section Target
variable {hash : String} {best x y : Revision} {l l' : List Revision}

lemma consider_comm (hx : x.id ≠ 0) (hy : y.id ≠ 0) (hxy : x.id = y.id → x = y) :
    consider hash (consider hash best x) y = consider hash (consider hash best y) x := by
  by_cases heq : x = y
  · rw [heq]
  have hne : x.id ≠ y.id := fun h => heq (hxy h)
  by_cases hskipx : x.state ≠ .superseded ∨ x.contentHash = hash
  · simp only [consider, if_pos hskipx]
  by_cases hskipy : y.state ≠ .superseded ∨ y.contentHash = hash
  · simp only [consider, if_pos hskipy]
  simp only [consider, if_neg hskipx, if_neg hskipy, newer, Bool.or_eq_true, Bool.and_eq_true, decide_eq_true_eq]
  split_ifs <;> first | rfl | (exfalso; omega)

lemma foldl_consider_perm (h : l.Perm l') (hnodup : (l.map Revision.id).Nodup) (hpos : ∀ r ∈ l, 0 < r.id) (best : Revision) :
    l.foldl (consider hash) best = l'.foldl (consider hash) best := by
  refine h.foldl_eq' (fun x hx y hy z => ?_) best
  have := hpos x hx
  have := hpos y hy
  exact consider_comm (by omega) (by omega) fun heq => eq_of_key hnodup hx hy heq

lemma rollbackTarget_perm (h : l.Perm l') (hnodup : (l.map Revision.id).Nodup) (hpos : ∀ r ∈ l, 0 < r.id)
    (current : Revision) (target : Int) : rollbackTarget l current target = rollbackTarget l' current target := by
  simp only [rollbackTarget, find_perm hnodup h, foldl_consider_perm h hnodup hpos]

lemma foldl_consider_mem (l : List Revision) (best : Revision) :
    l.foldl (consider hash) best = best ∨ l.foldl (consider hash) best ∈ l := by
  induction l generalizing best with
  | nil => exact .inl rfl
  | cons r l ih =>
    have hone : consider hash best r = best ∨ consider hash best r = r := by
      unfold consider
      split_ifs <;> simp
    rw [foldl_cons]
    rcases ih (consider hash best r) with heq | hmem
    · rw [heq]
      rcases hone with h | h <;> simp [h]
    · exact .inr (mem_cons_of_mem _ hmem)

lemma rollbackTarget_mem {current : Revision} {target : Int} (h : rollbackTarget l current target = .ok r) : r ∈ l := by
  unfold rollbackTarget at h
  by_cases htarget : target ≠ 0
  · rw [if_pos htarget] at h
    cases hfind : find Revision.id target l with
    | none =>
      rw [hfind] at h
      cases h
    | some x =>
      rw [hfind] at h
      simp only at h
      split_ifs at h
      cases h
      exact (mem_of_find hfind).1
  · rw [if_neg htarget] at h
    simp only at h
    split_ifs at h with hzero
    cases h
    refine (foldl_consider_mem l .zero).resolve_left fun heq => hzero ?_
    rw [heq]
    rfl

lemma consider_summary (best r : Revision) :
    consider hash best.summary r.summary = (consider hash best r).summary := by
  have hnewer : newer best.summary r.summary = newer best r := rfl
  simp only [consider, hnewer]
  by_cases hskip : r.state ≠ .superseded ∨ r.contentHash = hash
  · rw [if_pos hskip]
    exact if_pos hskip
  · rw [if_neg hskip]
    refine (if_neg hskip).trans ?_
    split_ifs <;> rfl

lemma foldl_consider_summary (l : List Revision) (best : Revision) :
    (l.map Revision.summary).foldl (consider hash) best.summary = (l.foldl (consider hash) best).summary := by
  induction l generalizing best with
  | nil => rfl
  | cons r l ih => rw [map_cons, foldl_cons, foldl_cons, consider_summary, ih]

lemma rollbackTarget_summary (l : List Revision) (current : Revision) (target : Int) :
    rollbackTarget (l.map Revision.summary) current target = (rollbackTarget l current target).map Revision.summary := by
  have hfind : find Revision.id target (l.map Revision.summary) = (find Revision.id target l).map Revision.summary :=
    find_map Revision.summary fun _ => rfl
  have hfold : (l.map Revision.summary).foldl (consider current.contentHash) .zero =
      (l.foldl (consider current.contentHash) .zero).summary :=
    foldl_consider_summary l .zero
  unfold rollbackTarget
  rw [hfind, hfold]
  split_ifs with htarget
  · cases find Revision.id target l with
    | none => rfl
    | some r =>
      simp only [Option.map_some, Revision.summary]
      split_ifs <;> rfl
  · simp only
    split_ifs with h h' h'
    · rfl
    · exact absurd h h'
    · exact absurd h' h
    · rfl

end Target

def Exact (t : Int) : Prop := fromMicros (toMicros t) = t

structure Revision.Exact (r : Revision) : Prop where
  createdAt : Revisions.Exact r.createdAt
  publishedAt : Revisions.Exact r.publishedAt

lemma exact_zeroTime : Exact zeroTime := by simp [Exact, toMicros, fromMicros]

variable {now : Int}

lemma exact_timestamp (h : 1000 ≤ now) : Exact (timestamp now) ∧ timestamp now ≠ zeroTime := by
  have hpos : timestamp now / 1000 = now / 1000 := by
    unfold timestamp
    omega
  have hne : timestamp now ≠ zeroTime := by
    unfold timestamp zeroTime
    omega
  refine ⟨?_, hne⟩
  rw [Exact, toMicros, if_neg hne, hpos, fromMicros, if_neg (by omega), timestamp]

lemma scanRevision_rowOf (h : r.Exact) : scanRevision (rowOf r) = r := by
  have hc : fromMicros (toMicros r.createdAt) = r.createdAt := h.createdAt
  have hp : fromMicros (toMicros r.publishedAt) = r.publishedAt := h.publishedAt
  simp only [scanRevision, rowOf, hc, hp]

/-- The tables hold the revisions. -/
structure Rep (m : MemoryStore) (t : Tables) : Prop where
  rows : t.rows = m.revs.map rowOf
  nextID : t.nextID = m.nextID
  exact_ : ∀ r ∈ m.revs, r.Exact

/-- The clock is past the epoch and the times of a history are kept as they are. -/
structure Plain (now : Int) (op : Op) : Prop where
  now : 1000 ≤ now
  imported : ∀ revs, op = .importHistory revs → ∀ r ∈ revs, r.Exact

section Rep
variable {m : MemoryStore} {t : Tables}

lemma Rep.locked (h : Rep m t) : Rep m t.locked := ⟨h.rows, h.nextID, h.exact_⟩

lemma Rep.get_eq (h : Rep m t) (id : Int) : t.get id = m.get id := by
  have hfind : find RevisionRow.id id (m.revs.map rowOf) = (find Revision.id id m.revs).map rowOf :=
    find_map rowOf fun _ => rfl
  rw [Tables.get, MemoryStore.get, h.rows, hfind, MemoryStore.get?]
  cases hr : find Revision.id id m.revs with
  | none => rfl
  | some r => exact congrArg Except.ok (scanRevision_rowOf (h.exact_ r (mem_of_find hr).1))

lemma Rep.published_eq (h : Rep m t) : t.published = m.published? := by
  rw [Tables.published, MemoryStore.published?, h.rows, find?_map]
  have hcomp : ((fun row : RevisionRow => decide (row.state = .published)) ∘ rowOf) =
      fun r => decide (r.state = .published) := rfl
  rw [hcomp]
  cases hr : m.revs.find? fun r => r.state = .published with
  | none => rfl
  | some r => exact congrArg some (scanRevision_rowOf (h.exact_ r (mem_of_find?_eq_some hr)))

lemma Rep.current_eq (h : Rep m t) (expected : Int) : t.current expected = m.checkCurrent expected := by
  simp only [Tables.current, MemoryStore.checkCurrent, h.published_eq]

lemma Rep.rollbackTarget_eq (h : Rep m t) (hwf : m.WF) (current : Revision) (target : Int) :
    rollbackTarget t.list current target = (rollbackTarget m.revs current target).map Revision.summary := by
  have hperm : t.list.Perm (m.revs.map Revision.summary) := by
    have hscan : m.revs.map Revision.summary = (m.revs.map rowOf).map fun row => (scanRevision row).summary := by
      rw [map_map]
      refine map_congr_left fun r hr => ?_
      simp only [Function.comp_apply, scanRevision_rowOf (h.exact_ r hr)]
    rw [Tables.list, hscan, ← h.rows]
    exact (perm_insertionSort _ _).map _
  have hids : (m.revs.map Revision.summary).map Revision.id = m.revs.map Revision.id := by
    rw [map_map]
    rfl
  have hnodup : (t.list.map Revision.id).Nodup := (hperm.map _).nodup_iff.mpr (by rw [hids]; exact hwf.ids)
  have hpos : ∀ r ∈ t.list, 0 < r.id := by
    intro r hr
    obtain ⟨x, hx, rfl⟩ := mem_map.mp (hperm.mem_iff.mp hr)
    exact hwf.pos x hx
  rw [rollbackTarget_perm hperm hnodup hpos, rollbackTarget_summary]

variable {revs : List Revision}

lemma countP_published (hnodup : (revs.map Revision.id).Nodup)
    (hone : ∀ r ∈ revs, ∀ r' ∈ revs, r.state = .published → r'.state = .published → r = r') :
    (revs.countP fun r => r.state = .published) ≤ 1 := by
  rw [countP_eq_length_filter]
  have hsub : (revs.filter fun r => r.state = .published).Nodup := (List.Nodup.of_map _ hnodup).filter _
  match hf : revs.filter fun r => r.state = .published with
  | [] => simp [hf]
  | [x] => simp [hf]
  | x :: y :: rest =>
    rw [hf] at hsub
    have hmem : ∀ z ∈ x :: y :: rest, z ∈ revs ∧ z.state = .published := by
      intro z hz
      rw [← hf, mem_filter] at hz
      exact ⟨hz.1, by simpa using hz.2⟩
    obtain ⟨hx, hxp⟩ := hmem x (by simp)
    obtain ⟨hy, hyp⟩ := hmem y (by simp)
    rw [hone x hx y hy hxp hyp] at hsub
    simp at hsub

lemma constrained_rep (hnodup : (revs.map Revision.id).Nodup)
    (hcount : (revs.countP fun r => r.state = .published) ≤ 1) :
    Tables.constrained (revs.map rowOf) = .ok (revs.map rowOf) := by
  have hids : (revs.map rowOf).map RevisionRow.id = revs.map Revision.id := by
    rw [map_map]
    rfl
  have hp : ((revs.map rowOf).countP fun row => row.state = .published) = revs.countP fun r => r.state = .published := by
    rw [countP_map]
    rfl
  rw [Tables.constrained, hids, hp, if_neg]
  rintro (h | h)
  · exact h hnodup
  · omega

lemma setState_rep (hrows : t.rows = revs.map rowOf) {id : Int}
    (hid : (revs.countP fun r => r.id = id) = 1) (f : Revision → Revision) {state : RevState} {at_ : Int}
    (hf : ∀ r, f r = if at_ = zeroTime then { r with state } else { r with state, publishedAt := at_ })
    (hnodup : (revs.map Revision.id).Nodup)
    (hcount : ((Keyed.update Revision.id id f revs).countP fun r => r.state = .published) ≤ 1) :
    t.setState id state at_ = .ok { t with rows := (Keyed.update Revision.id id f revs).map rowOf } := by
  have hkey : ∀ r, (f r).id = r.id := by
    intro r
    rw [hf]
    split_ifs <;> rfl
  have hupdate : update RevisionRow.id id (fun row =>
      if at_ = zeroTime then { row with state } else { row with state, publishedUs := toMicros at_ }) (revs.map rowOf) =
      (update Revision.id id f revs).map rowOf := by
    refine update_map rowOf (fun _ => rfl) fun r => ?_
    rw [hf]
    split_ifs <;> rfl
  have hnodup' : ((update Revision.id id f revs).map Revision.id).Nodup := by
    rw [map_key_update fun r h => by rw [hkey, h]]
    exact hnodup
  have hrow : ((revs.map rowOf).countP fun row => row.id = id) = 1 := by
    rw [countP_map]
    exact hid
  simp only [Tables.setState, hrows, hupdate, constrained_rep hnodup' hcount, ok_bind, refuseIf, hrow,
    ne_eq, not_true_eq_false, if_false]

lemma countP_id (hnodup : (revs.map Revision.id).Nodup) {id : Int} (hid : id ∈ revs.map Revision.id) :
    (revs.countP fun x => x.id = id) = 1 := by
  have hcount : (revs.countP fun x => x.id = id) = (revs.map Revision.id).count id := by
    rw [count_eq_countP, countP_map]
    rfl
  rw [hcount]
  exact count_eq_one_of_mem hnodup hid

lemma countP_none (h : ∀ r ∈ revs, r.state ≠ .published) : (revs.countP fun r => r.state = .published) ≤ 1 := by
  rw [countP_eq_zero.mpr fun r hr => by simpa using h r hr]
  omega

/-- The SQL store answers as the store in memory does. -/
structure Answers (t : Tables) (a : Except Error α × MemoryStore) (b : Except Error α × Tables) : Prop where
  result : b.1 = a.1
  rep : Rep a.2 b.2
  failed : ∀ e, b.1 = .error e → b.2 = t
  grown : ∀ x, b.1 = .ok x → t.sequence < b.2.sequence

lemma Answers.error (hrep : Rep m t) (e : Error) : Answers (α := α) t (.error e, m) (.error e, t) :=
  ⟨rfl, hrep, fun _ _ => rfl, nofun⟩

lemma Answers.ok {a : α} {m' : MemoryStore} {t' : Tables} (hrep : Rep m' t') (hgrown : t.sequence < t'.sequence) :
    Answers t (.ok a, m') (.ok a, t') :=
  ⟨rfl, hrep, nofun, fun _ _ => hgrown⟩

lemma insert_rep (hrows : t.rows = revs.map rowOf)
    (hnodup : ((revs ++ [r]).map Revision.id).Nodup)
    (hcount : ((revs ++ [r]).countP fun r => r.state = .published) ≤ 1) :
    t.insert r = .ok { t with rows := (revs ++ [r]).map rowOf } := by
  have happend : t.rows ++ [rowOf r] = (revs ++ [r]).map rowOf := by rw [hrows, map_append, map_singleton]
  simp only [Tables.insert, happend, constrained_rep hnodup hcount, ok_bind]

lemma create_answers (hash : Payload → String) (d : Draft) (hwf : m.WF) (hrep : Rep m t) (hnow : 1000 ≤ now) :
    Answers t (m.create hash now d) (t.create hash now d) := by
  have hgrows := MemoryStore.create_grows hash now d hwf
  have hid : t.nextID + 1 - 1 = m.nextID := by
    rw [Int.add_sub_cancel, hrep.nextID]
  have hrows : { t with nextID := t.nextID + 1 }.rows = m.revs.map rowOf := hrep.rows
  have hinsert := insert_rep hrows hgrows.wf.ids (countP_published hgrows.wf.ids hgrows.wf.one)
  rw [MemoryStore.create_eq hash now d hwf]
  simp only [Tables.create, Tables.withTx, hid, hinsert, ok_bind]
  refine .ok ⟨rfl, by simp [hrep.nextID], fun r hr => ?_⟩ ?_
  · rcases mem_append.mp hr with hr | hr
    · exact hrep.exact_ r hr
    · rw [mem_singleton.mp hr]
      exact ⟨(exact_timestamp hnow).1, exact_zeroTime⟩
  · simp only [Tables.sequence]
    omega

lemma exact_setState (h : ∀ r ∈ revs, r.Exact) (id : Int) (state : RevState) :
    ∀ r ∈ setState id state revs, r.Exact := by
  intro r hr
  obtain ⟨x, hx, rfl⟩ := mem_update.mp hr
  split_ifs
  · exact ⟨(h x hx).createdAt, (h x hx).publishedAt⟩
  · exact h x hx

lemma discard_answers {id : Int} (hwf : m.WF) (hrep : Rep m t) :
    Answers t (m.discard id) (t.discard id) := by
  have hget := hrep.locked.get_eq id
  cases ht : m.get? id with
  | none =>
    simp only [MemoryStore.get, ht] at hget
    simp only [MemoryStore.discard, ht, Tables.discard, hget, Except.error_bind, Tables.withTx]
    exact .error hrep _
  | some target =>
    simp only [MemoryStore.get, ht] at hget
    by_cases hdraft : target.state = .draft
    · obtain ⟨hmem, rfl⟩ := MemoryStore.get?_mem ht
      have hgrows := MemoryStore.discard_grows hwf ht hdraft
      have hset : t.locked.setState target.id .discarded zeroTime =
          .ok { t.locked with rows := (setState target.id .discarded m.revs).map rowOf } :=
        setState_rep hrep.locked.rows (countP_id hwf.ids (mem_map_of_mem hmem)) (Revision.inState .discarded) (by simp [Revision.inState]) hwf.ids
          (countP_published hgrows.wf.ids hgrows.wf.one)
      rw [MemoryStore.discard_eq hwf ht hdraft]
      simp only [Tables.discard, hget, ok_bind, refuseIf, hdraft, ne_eq, not_true_eq_false, if_false, hset,
        Tables.withTx]
      refine .ok ⟨rfl, hrep.nextID, exact_setState hrep.exact_ _ _⟩ ?_
      simp only [Tables.sequence, Tables.locked]
      omega
    · simp only [MemoryStore.discard, ht, ne_eq, hdraft, not_false_eq_true, if_true, Tables.discard, hget, ok_bind,
        refuseIf, Except.error_bind, Tables.withTx]
      exact .error hrep _

lemma publish_answers {id expected : Int} (hwf : m.WF) (hrep : Rep m t) (hnow : 1000 ≤ now) :
    Answers t (m.publish now id expected) (t.publish now id expected) := by
  have hget := hrep.locked.get_eq id
  have hcurrent := hrep.locked.current_eq expected
  cases ht : m.get? id with
  | none =>
    simp only [MemoryStore.get, ht] at hget
    simp only [MemoryStore.publish, ht, Tables.publish, hget, Except.error_bind, Tables.withTx]
    exact .error hrep _
  | some target =>
    simp only [MemoryStore.get, ht] at hget
    by_cases hdraft : target.state = .draft
    · cases hc : m.checkCurrent expected with
      | error e =>
        simp only [MemoryStore.publish, ht, hdraft, ne_eq, not_true_eq_false, if_false, hc, Tables.publish, hget,
          ok_bind, refuseIf, hcurrent, Except.error_bind, Tables.withTx]
        exact .error hrep _
      | ok current =>
        obtain ⟨hmem, rfl⟩ := MemoryStore.get?_mem ht
        have hgrows := MemoryStore.publish_grows hwf ht hdraft hc (timestamp now)
        have hnone := MemoryStore.none_published_supersede hwf hc
        obtain ⟨hexact, hzero⟩ := exact_timestamp hnow
        -- The published revision gives way first, so that the index holds in between.
        have hfirst : t.locked.supersede current.id =
            .ok { t.locked with rows := (MemoryStore.supersede current.id m.revs).map rowOf } := by
          rw [Tables.supersede]
          by_cases hne : current.id ≠ 0
          · rw [if_pos hne, MemoryStore.supersede, if_pos hne]
            rw [MemoryStore.supersede, if_pos hne] at hnone
            exact setState_rep hrep.locked.rows (countP_id hwf.ids (mem_map_of_mem (MemoryStore.current_mem hwf hc hne).1))
              (Revision.inState .superseded) (by simp [Revision.inState]) hwf.ids (countP_none hnone)
          · rw [if_neg hne, MemoryStore.supersede, if_neg hne, ← hrep.rows]
            rfl
        have hids := MemoryStore.map_id_supersede current.id m.revs
        have hcount : ((MemoryStore.supersede current.id m.revs).countP fun r => r.id = target.id) = 1 :=
          countP_id (hids ▸ hwf.ids) (hids ▸ mem_map_of_mem hmem)
        have hsecond : Tables.setState { t.locked with rows := (MemoryStore.supersede current.id m.revs).map rowOf }
            target.id .published (timestamp now) = .ok { t.locked with
              rows := (setPublished target.id (timestamp now) (MemoryStore.supersede current.id m.revs)).map rowOf } :=
          setState_rep rfl hcount (Revision.publishedAs (timestamp now)) (by simp [Revision.publishedAs, hzero]) (by rw [hids]; exact hwf.ids)
            (countP_published hgrows.wf.ids hgrows.wf.one)
        rw [MemoryStore.publish_eq hwf ht hdraft hc]
        simp only [Tables.publish, hget, ok_bind, refuseIf, hdraft, ne_eq, not_true_eq_false, if_false,
          hcurrent, hc, hfirst, hsecond, Tables.withTx]
        refine .ok ⟨rfl, hrep.nextID, fun r hr => ?_⟩ ?_
        · obtain ⟨x, hx, rfl⟩ := mem_update.mp hr
          have hxexact : x.Exact := by
            rw [MemoryStore.supersede] at hx
            split_ifs at hx
            · exact exact_setState hrep.exact_ _ _ x hx
            · exact hrep.exact_ x hx
          split_ifs
          · exact ⟨hxexact.createdAt, hexact⟩
          · exact hxexact
        · simp only [Tables.sequence, Tables.locked]
          omega
    · simp only [MemoryStore.publish, ht, ne_eq, hdraft, not_false_eq_true, if_true, Tables.publish, hget, ok_bind,
        refuseIf, Except.error_bind, Tables.withTx]
      exact .error hrep _

lemma rollback_answers {expected target : Int} {who : Meta} (hwf : m.WF) (hrep : Rep m t) (hnow : 1000 ≤ now) :
    Answers t (m.rollback now expected target who) (t.rollback now expected target who) := by
  have hcurrent := hrep.locked.current_eq expected
  by_cases hne : expected = 0
  · simp only [MemoryStore.rollback, Tables.rollback, hne, if_true]
    exact .error hrep _
  cases hc : m.checkCurrent expected with
  | error e =>
    simp only [MemoryStore.rollback, hne, if_false, hc, Tables.rollback, hcurrent, Except.error_bind, Tables.withTx]
    exact .error hrep _
  | ok current =>
    have htarget := hrep.locked.rollbackTarget_eq hwf current target
    cases hs : rollbackTarget m.revs current target with
    | error e =>
      rw [hs] at htarget
      simp only [MemoryStore.rollback, hne, if_false, hc, hs, Tables.rollback, hcurrent, ok_bind, htarget, Except.map,
        Except.error_bind, Tables.withTx]
      exact .error hrep _
    | ok source =>
      rw [hs] at htarget
      have hgrows := MemoryStore.rollback_grows hwf hne hc source now who
      have hsource : t.locked.get source.summary.id = .ok source := by
        have hfind : m.get? source.id = some source := find_of_mem hwf.ids (rollbackTarget_mem hs)
        rw [hrep.locked.get_eq, MemoryStore.get, Revision.summary, hfind]
      have hcur : current.id ≠ 0 := (MemoryStore.checkCurrent_ok hwf hc).1 ▸ hne
      have hset : t.locked.setState current.id .rolledBack zeroTime =
          .ok { t.locked with rows := (setState current.id .rolledBack m.revs).map rowOf } :=
        setState_rep hrep.locked.rows (countP_id hwf.ids (mem_map_of_mem (MemoryStore.current_mem hwf hc hcur).1))
          (Revision.inState .rolledBack) (by simp [Revision.inState]) hwf.ids
          (countP_none (MemoryStore.none_published hwf hc (by simp) hcur))
      have hid : t.locked.nextID + 1 - 1 = m.nextID := by
        rw [Int.add_sub_cancel, hrep.locked.nextID]
      have hrows : { t.locked with
          rows := (setState current.id .rolledBack m.revs).map rowOf, nextID := t.locked.nextID + 1 }.rows =
            (setState current.id .rolledBack m.revs).map rowOf := rfl
      have hinsert := insert_rep hrows hgrows.wf.ids (countP_published hgrows.wf.ids hgrows.wf.one)
      rw [MemoryStore.rollback_eq hwf hne hc hs]
      simp only [Tables.rollback, hne, if_false, hcurrent, hc, ok_bind, htarget, Except.map, hsource, hset, hid,
        hinsert, Tables.withTx]
      refine .ok ⟨rfl, by simp [Tables.locked, hrep.nextID], fun r hr => ?_⟩ ?_
      · rcases mem_append.mp hr with hr | hr
        · exact exact_setState hrep.exact_ _ _ r hr
        · rw [mem_singleton.mp hr]
          exact ⟨(exact_timestamp hnow).1, (exact_timestamp hnow).1⟩
      · simp only [Tables.sequence, Tables.locked]
        omega

lemma foldlM_insert {done : List Revision} (hrows : t.rows = done.map rowOf)
    (hnodup : ((done ++ revs).map Revision.id).Nodup)
    (hcount : ((done ++ revs).countP fun r => r.state = .published) ≤ 1) :
    revs.foldlM Tables.insert t = .ok { t with rows := (done ++ revs).map rowOf } := by
  induction revs generalizing done t with
  | nil => rw [foldlM_nil, append_nil, ← hrows, Except.pure_eq_ok]
  | cons r revs ih =>
    have happend : done ++ r :: revs = done ++ [r] ++ revs := by simp
    rw [happend] at hnodup hcount ⊢
    have hnodup' : ((done ++ [r]).map Revision.id).Nodup := by
      rw [map_append] at hnodup
      exact hnodup.sublist (sublist_append_left _ _)
    have hcount' : ((done ++ [r]).countP fun r => r.state = .published) ≤ 1 := by
      rw [countP_append] at hcount
      omega
    rw [foldlM_cons, insert_rep hrows hnodup' hcount', ok_bind, ih rfl hnodup hcount]

lemma nextAfter_eq (n : Int) (revs : List Revision) :
    MemoryStore.nextAfter (n + 1) revs = revs.foldl (fun n r => max n r.id) n + 1 := by
  induction revs generalizing n with
  | nil => rfl
  | cons r revs ih =>
    have hmax : max (n + 1) (r.id + 1) = max n r.id + 1 := by omega
    rw [foldl_cons, ← ih, ← hmax]
    rfl

lemma nextAfter_le {n bound : Int} (hn : n ≤ bound) (h : ∀ r ∈ revs, r.id < bound) :
    MemoryStore.nextAfter n revs ≤ bound := by
  induction revs generalizing n with
  | nil => exact hn
  | cons r revs ih =>
    have := h r (by simp)
    exact ih (n := max n (r.id + 1)) (by omega) fun x hx => h x (mem_cons_of_mem _ hx)

lemma importHistory_answers (hash : Payload → String) (hwf : m.WF) (hrep : Rep m t)
    (hids : ∀ r ∈ revs, r.id < 4611686018427387904) (hexact : ∀ r ∈ revs, r.Exact) :
    Answers t (m.importHistory hash revs) (t.importHistory hash revs) := by
  cases hvalid : validateHistory hash revs with
  | error e =>
    simp only [MemoryStore.importHistory, Tables.importHistory, hvalid]
    exact .error hrep _
  | ok u =>
    by_cases hnil : m.revs = []
    · obtain ⟨hnodup, _, hcount⟩ := MemoryStore.validateHistory_ok hvalid
      have hrows : t.locked.rows = ([] : List Revision).map rowOf := by
        rw [hrep.locked.rows, hnil]
      have hlen : ¬ 0 < t.locked.rows.length := by simp [hrows]
      have hinsert := foldlM_insert hrows hnodup hcount
      have hnext : int64 (revs.foldl (fun n r => max n r.id) 0 + 1) = MemoryStore.nextAfter 1 revs := by
        have hle : MemoryStore.nextAfter 1 revs ≤ 4611686018427387904 := nextAfter_le (by decide) hids
        have hge := (MemoryStore.le_nextAfter 1 revs).1
        rw [← nextAfter_eq, Int.zero_add, int64_id (by omega) (by unfold maxInt64; omega)]
      have hfirst : t.nextID = 1 := hrep.nextID.trans (hwf.first hnil)
      rw [MemoryStore.importHistory_eq hwf hids hvalid hnil]
      simp only [Tables.importHistory, hvalid, refuseIf, hlen, if_false, ok_bind, hinsert, hnext, Tables.withTx]
      refine .ok ⟨rfl, rfl, hexact⟩ ?_
      have hge := (MemoryStore.le_nextAfter 1 revs).1
      simp only [Tables.sequence, Tables.locked]
      omega
    · have hlen : 0 < t.locked.rows.length := by
        rw [hrep.locked.rows, length_map]
        exact length_pos_of_ne_nil hnil
      simp only [MemoryStore.importHistory, Tables.importHistory, hvalid, ne_eq, hnil, not_false_eq_true, if_true,
        refuseIf, hlen, Except.error_bind, Tables.withTx]
      exact .error hrep _

lemma Answers.map {a : Except Error α × MemoryStore} {b : Except Error α × Tables} (h : Answers t a b) (f : α → β) :
    Answers t (a.1.map f, a.2) (b.1.map f, b.2) := by
  refine ⟨by rw [h.result], h.rep, fun e he => ?_, fun x hx => ?_⟩
  · cases hb : b.1 with
    | error e' => exact h.failed e' hb
    | ok y =>
      rw [hb] at he
      cases he
  · cases hb : b.1 with
    | error e =>
      rw [hb] at hx
      cases hx
    | ok y => exact h.grown y hb

theorem apply_answers (hash : Payload → String) {op : Op} (hwf : m.WF) (hrep : Rep m t) (hfits : MemoryStore.Fits op)
    (hplain : Plain now op) : Answers t (m.apply hash now op) (t.apply hash now op) := by
  cases op with
  | create d => exact (create_answers hash d hwf hrep hplain.now).map some
  | publish id expected => exact (publish_answers hwf hrep hplain.now).map some
  | discard id => exact (discard_answers hwf hrep).map some
  | rollback expected target who => exact (rollback_answers hwf hrep hplain.now).map some
  | importHistory revs =>
    exact (importHistory_answers hash hwf hrep (hfits revs rfl) (hplain.imported revs rfl)).map fun _ => none

end Rep

/-- The two stores after the same operations at the same times of the clock, where the times
are whole microseconds and a history leaves IDs. -/
inductive Runs (hash : Payload → String) : MemoryStore → Tables → Prop where
  | empty : Runs hash .empty .empty
  | apply {m : MemoryStore} {t : Tables} {now : Int} {op : Op} (h : Runs hash m t) (hfits : MemoryStore.Fits op)
      (hplain : Plain now op) : Runs hash (m.apply hash now op).2 (t.apply hash now op).2

lemma Runs.wf {hash : Payload → String} {m : MemoryStore} {t : Tables} (h : Runs hash m t) : m.WF ∧ Rep m t := by
  induction h with
  | empty => exact ⟨MemoryStore.wf_empty, rfl, rfl, by simp [MemoryStore.empty]⟩
  | @apply m t now op h hfits hplain ih =>
    obtain ⟨hwf, hrep⟩ := ih
    refine ⟨?_, (apply_answers hash hwf hrep hfits hplain).rep⟩
    rcases MemoryStore.apply_sound hash now op hwf hfits with ⟨e, he⟩ | ⟨_, hgrows⟩
    · rw [he]
      exact hwf
    · exact hgrows.wf

/-- In every run: at most one revision is published; an operation that fails changes nothing
and one that succeeds counts up; no revision goes away, each keeps its ID, parent, hash and
payload and moves only along the transitions there are; a new revision has an ID above all
there were; and the SQL store answers every operation as the store in memory does. -/
theorem revision_stores_agree (hash : Payload → String) {m : MemoryStore} {t : Tables} (hruns : Runs hash m t) {now : Int}
    {op : Op} (hfits : MemoryStore.Fits op) (hplain : Plain now op) :
    (m.revs.countP fun r => r.state = .published) ≤ 1 ∧
    (∀ e, (m.apply hash now op).1 = .error e → (m.apply hash now op).2 = m) ∧
    (∀ a, (m.apply hash now op).1 = .ok a → m.seq < (m.apply hash now op).2.seq) ∧
    (∀ r ∈ m.revs, ∃ r' ∈ (m.apply hash now op).2.revs, MemoryStore.Becomes r r') ∧
    (∀ r' ∈ (m.apply hash now op).2.revs,
      (∃ r ∈ m.revs, MemoryStore.Becomes r r') ∨ ∀ r ∈ m.revs, r.id < r'.id) ∧
    (t.apply hash now op).1 = (m.apply hash now op).1 ∧
    (∀ e, (t.apply hash now op).1 = .error e → (t.apply hash now op).2 = t) ∧
    (∀ a, (t.apply hash now op).1 = .ok a → t.sequence < (t.apply hash now op).2.sequence) ∧
    (t.apply hash now op).2.rows = (m.apply hash now op).2.revs.map rowOf := by
  obtain ⟨hwf, hrep⟩ := hruns.wf
  have hanswers := apply_answers hash hwf hrep hfits hplain
  have hcount := countP_published hwf.ids hwf.one
  rcases MemoryStore.apply_sound hash now op hwf hfits with ⟨e, he⟩ | ⟨⟨a, ha⟩, hgrows⟩
  · refine ⟨hcount, fun _ _ => by rw [he], fun a ha => ?_, fun r hr => ⟨r, by rw [he]; exact hr, .refl r⟩,
      fun r' hr' => .inl ⟨r', ?_, .refl r'⟩, hanswers.result, hanswers.failed, hanswers.grown, hanswers.rep.rows⟩
    · rw [he] at ha
      cases ha
    · rw [he] at hr'
      exact hr'
  · refine ⟨hcount, fun e he => ?_, fun _ _ => ?_, hgrows.kept, fun r' hr' => ?_, hanswers.result, hanswers.failed,
      hanswers.grown, hanswers.rep.rows⟩
    · rw [ha] at he
      cases he
    · rw [hgrows.seq]
      omega
    · refine (hgrows.added r' hr').imp_right fun hle r hr => ?_
      have := hwf.fresh r hr
      omega

def lengthHash (p : Payload) : String := String.ofList (p.map fun _ => 'a')

def oneDraft : Op := .create ⟨0, [1], "admin", ""⟩

theorem revision_stores_agree_publish :
    (∃ r, (Tables.apply lengthHash 1000 (.publish 1 0) (Tables.apply lengthHash 1000 oneDraft .empty).2).1 = .ok (some r) ∧
      r.state = .published) ∧
    (Tables.apply lengthHash 1000 (.publish 1 0) (Tables.apply lengthHash 1000 oneDraft .empty).2).1 =
      (MemoryStore.apply lengthHash 1000 (.publish 1 0) (MemoryStore.apply lengthHash 1000 oneDraft .empty).2).1 := by
  have hruns : Runs lengthHash (MemoryStore.apply lengthHash 1000 oneDraft .empty).2
      (Tables.apply lengthHash 1000 oneDraft .empty).2 :=
    .apply .empty (by simp [MemoryStore.Fits, oneDraft]) ⟨by decide, by simp [oneDraft]⟩
  have hfits : MemoryStore.Fits (.publish 1 0) := by simp [MemoryStore.Fits]
  exact ⟨⟨_, rfl, rfl⟩, (revision_stores_agree lengthHash hruns hfits ⟨by decide, by simp⟩).2.2.2.2.2.1⟩

/-- Two revisions published within one microsecond, the older ID later, and one after them. -/
def closeHistory : List Revision := [
  ⟨1, 0, "a", [1], .superseded, "admin", "", 1000, 5200⟩,
  ⟨2, 0, "aa", [1, 2], .superseded, "admin", "", 1000, 5100⟩,
  ⟨3, 0, "aaa", [1, 2, 3], .published, "admin", "", 1000, 9000⟩]

/-- The store in memory rolls back to the one published last, the SQL store to the other. -/
theorem rollback_targets_differ :
    ((MemoryStore.apply lengthHash 20000 (.rollback 3 0 ⟨"admin", ""⟩)
      (MemoryStore.apply lengthHash 10000 (.importHistory closeHistory) .empty).2).1.map (·.map Revision.parentID)) =
      .ok (some 1) ∧
    ((Tables.apply lengthHash 20000 (.rollback 3 0 ⟨"admin", ""⟩)
      (Tables.apply lengthHash 10000 (.importHistory closeHistory) .empty).2).1.map (·.map Revision.parentID)) =
      .ok (some 2) := by
  decide

/-- The ID after the greatest is negative, and with it the SQL store counts down. -/
theorem import_wraps_nextID :
    (MemoryStore.apply lengthHash 10000 (.importHistory [⟨maxInt64, 0, "a", [1], .draft, "admin", "", 1000, zeroTime⟩])
      .empty).2.nextID < 0 ∧
    (Tables.apply lengthHash 10000 (.importHistory [⟨maxInt64, 0, "a", [1], .draft, "admin", "", 1000, zeroTime⟩])
      .empty).2.sequence < Tables.empty.sequence := by
  decide

end SqlMcpServer.Revisions
