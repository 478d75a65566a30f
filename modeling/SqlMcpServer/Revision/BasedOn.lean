import SqlMcpServer.Revision

/-!
# What a draft builds on

`BasedOn` over the content of a store. Imported revisions may have any parents, cycles included:
the walk ends because it goes to each revision at most once.
-/

namespace SqlMcpServer.Revisions.MemoryStore

open List

variable (m : MemoryStore)

/-- The loop of `BasedOn`, at a revision and with the IDs of the parents it went to. -/
def basedOnFrom (rev : Revision) (seen : List Int) : Except Error Int :=
  if rev.state.isUnpublished then
    if rev.parentID = 0 ∨ rev.parentID ∈ seen then .ok 0
    else
      match hget : m.get? rev.parentID with
      | none => .error (notFound rev.parentID)
      | some parent => basedOnFrom parent (rev.parentID :: seen)
  else .ok rev.id
termination_by (m.revs.filter fun r => r.id ∉ seen).length
decreasing_by
  rename_i hnew
  obtain ⟨hmem, hid⟩ := Keyed.mem_of_find hget
  have hfewer : (m.revs.filter fun r => r.id ∉ rev.parentID :: seen).Sublist (m.revs.filter fun r => r.id ∉ seen) := by
    apply monotone_filter_right
    intro r hr
    simp only [decide_eq_true_eq, mem_cons, not_or] at hr ⊢
    exact hr.2
  refine Nat.lt_of_le_of_ne hfewer.length_le fun hlength => ?_
  have hparent : parent ∈ m.revs.filter fun r => r.id ∉ seen := by
    rw [mem_filter, hid]
    exact ⟨hmem, by simpa using (not_or.mp hnew).2⟩
  rw [← hfewer.eq_of_length hlength] at hparent
  simp [hid] at hparent

def basedOn (rev : Revision) : Except Error Int := m.basedOnFrom rev []

/-- The revision, its parent, its parent's parent and so on. -/
def ancestor (rev : Revision) : Nat → Option Revision
  | 0 => some rev
  | n + 1 => (ancestor rev n).bind fun r => if r.parentID = 0 then none else m.get? r.parentID

variable {m} {start rev : Revision} {seen : List Int} {n : Nat}

lemma ancestor_add {j k : Nat} (h : m.ancestor start j = m.ancestor start k) (d : Nat) :
    m.ancestor start (j + d) = m.ancestor start (k + d) := by
  induction d with
  | zero => exact h
  | succ d ih => rw [← Nat.add_assoc, ← Nat.add_assoc, ancestor, ancestor, ih]

lemma ancestor_none {k : Nat} (h : m.ancestor start k = none) (d : Nat) : m.ancestor start (k + d) = none := by
  induction d with
  | zero => exact h
  | succ d ih =>
    rw [← Nat.add_assoc, ancestor, ih]
    rfl

/-- The first revision along the ancestors that was published, or 0. -/
def NearestPublished (m : MemoryStore) (start : Revision) (id : Int) : Prop :=
  (∃ n r, m.ancestor start n = some r ∧ r.state.isUnpublished = false ∧ r.id = id ∧
      ∀ j < n, ∀ r', m.ancestor start j = some r' → r'.state.isUnpublished = true) ∨
    id = 0 ∧ ∀ n r, m.ancestor start n = some r → r.state.isUnpublished = true

lemma NearestPublished.none (hupto : ∀ j ≤ n, ∀ r, m.ancestor start j = some r → r.state.isUnpublished = true)
    (hnext : m.ancestor start (n + 1) = .none ∨ ∃ j ≤ n, m.ancestor start (n + 1) = m.ancestor start j) : NearestPublished m start 0 := by
  refine .inr ⟨rfl, fun k => ?_⟩
  induction k using Nat.strongRecOn with
  | ind k ih =>
    intro r hr
    by_cases hk : k ≤ n
    · exact hupto k hk r hr
    obtain ⟨d, rfl⟩ := Nat.exists_eq_add_of_lt (Nat.lt_of_not_le hk)
    have hd : n + d + 1 = n + 1 + d := by omega
    rw [hd] at hr ih
    -- the ancestors end, or go round
    rcases hnext with hend | ⟨j, hj, hround⟩
    · rw [ancestor_none hend d] at hr
      cases hr
    · rw [ancestor_add hround d] at hr
      exact ih (j + d) (by omega) r hr

lemma basedOnFrom_nearest (hparents : ∀ r ∈ start :: m.revs, r.parentID ≠ 0 → ∃ p, m.get? r.parentID = some p)
    (hrev : rev ∈ start :: m.revs) (hn : m.ancestor start n = some rev)
    (hbefore : ∀ j < n, ∀ r, m.ancestor start j = some r → r.state.isUnpublished = true)
    (hseen : ∀ id ∈ seen, ∃ j ≤ n, m.ancestor start j = m.get? id) :
    ∃ id, m.basedOnFrom rev seen = .ok id ∧ NearestPublished m start id := by
  fun_induction basedOnFrom m rev seen generalizing n with
  | case1 rev seen hstate hstop =>
    refine ⟨0, rfl, .none (n := n) ?_ ?_⟩
    · intro j hj r hr
      rcases Nat.lt_or_eq_of_le hj with hj | rfl
      · exact hbefore j hj r hr
      · rw [hn, Option.some.injEq] at hr
        exact hr ▸ hstate
    · rw [ancestor, hn, Option.bind_some]
      by_cases hzero : rev.parentID = 0
      · exact .inl (if_pos hzero)
      · obtain ⟨j, hj, hround⟩ := hseen _ (hstop.resolve_left hzero)
        exact .inr ⟨j, hj, (if_neg hzero).trans hround.symm⟩
  | case2 rev seen hstate hgo hnone =>
    obtain ⟨p, hp⟩ := hparents rev hrev (not_or.mp hgo).1
    rw [hnone] at hp
    cases hp
  | case3 rev seen hstate hgo parent hget ih =>
    have hnext : m.ancestor start (n + 1) = some parent := by
      rw [ancestor, hn, Option.bind_some, if_neg (not_or.mp hgo).1, hget]
    refine ih (mem_cons_of_mem _ (Keyed.mem_of_find hget).1) hnext ?_ ?_
    · intro j hj r hr
      rcases Nat.lt_or_eq_of_le (Nat.le_of_lt_succ hj) with hj | rfl
      · exact hbefore j hj r hr
      · rw [hn, Option.some.injEq] at hr
        exact hr ▸ hstate
    · intro id hid
      rcases mem_cons.mp hid with rfl | hid
      · exact ⟨n + 1, Nat.le_refl _, hnext.trans hget.symm⟩
      · obtain ⟨j, hj, hround⟩ := hseen id hid
        exact ⟨j, Nat.le_succ_of_le hj, hround⟩
  | case4 rev seen hstate =>
    exact ⟨rev.id, rfl, .inl ⟨n, rev, hn, eq_false_of_ne_true hstate, rfl, hbefore⟩⟩

/-- Where every parent exists, `BasedOn` returns, with the nearest revision that was published. -/
theorem basedOn_nearest (m : MemoryStore) (rev : Revision)
    (hparents : ∀ r ∈ rev :: m.revs, r.parentID ≠ 0 → ∃ p, m.get? r.parentID = some p) :
    ∃ id, m.basedOn rev = .ok id ∧ NearestPublished m rev id := by
  apply basedOnFrom_nearest (n := 0) hparents mem_cons_self rfl
  · intro j hj
    exact absurd hj (Nat.not_lt_zero j)
  · simp

def twoDrafts : MemoryStore := ⟨[{ Revision.zero with id := 1, parentID := 2, state := .draft },
  { Revision.zero with id := 2, parentID := 1, state := .discarded }], 3, 2⟩

def thirdDraft : Revision := { Revision.zero with id := 3, parentID := 1, state := .draft }

theorem basedOn_nearest_twoDrafts :
    ∃ id, twoDrafts.basedOn thirdDraft = .ok id ∧ NearestPublished twoDrafts thirdDraft id := by
  have hparents : ∀ r ∈ thirdDraft :: twoDrafts.revs, (twoDrafts.get? r.parentID).isSome = true := by decide
  exact basedOn_nearest twoDrafts thirdDraft fun r hr _ => Option.isSome_iff_exists.mp (hparents r hr)

end SqlMcpServer.Revisions.MemoryStore
