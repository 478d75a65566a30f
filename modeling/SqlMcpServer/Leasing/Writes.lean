import SqlMcpServer.Leasing
import Mathlib.Tactic.SplitIfs

namespace SqlMcpServer.Leasing
variable {scan : Scan} {s s' : State}

def Moving (s : State) (r : Nat) (x : String) (m : Move) : Prop :=
  (∃ next, (s.runs r).workers x = .moving m next) ∨ ∃ seen todo, (s.runs r).phase = .requeueMove x m seen todo

def Action.isOf (a : Action) (r : Nat) : Prop := (∃ x c, a = .worker r x c) ∨ ∃ c, a = .main r c

/-- The batch after a step: as it was but for its owner, heartbeat and cancellation; an item
moved; or the batch ended. -/
inductive Writes (s : State) (a : Action) (b : Batch) : Prop where
  | same (hitems : b.items = s.batch.items) (hfinished : b.finished = s.batch.finished)
      (howner : s.batch.finished = true → b.owner = s.batch.owner)
  | move {r : Nat} {x : String} {m : Move} {it : Item} (ha : a.isOf r) (hm : Moving s r x m) (hr : s.batch.owner = r)
      (hopen : s.batch.finished = false) (hit : s.batch.items x = some it) (hsource : it.state = m.source)
      (hitems : b.items = Function.update s.batch.items x (some m.item)) (hfinished : b.finished = false) (howner : b.owner = r)
  | finish {r : Nat} (ha : a.isOf r) (hphase : (s.runs r).phase = .finishing) (hr : s.batch.owner = r)
      (hopen : s.batch.finished = false) (hitems : b.items = fun x => (s.batch.items x).map Batch.ended)
      (hfinished : b.finished = true) (howner : b.owner = r)

lemma Batch.beatOwned_eq_some {b b' : Batch} {r : Nat} {now : Int} (h : b.beatOwned r now = some b') :
    b.owner = r ∧ b.finished = false ∧ b' = { b with heartbeat := now } := by
  unfold Batch.beatOwned at h
  split_ifs at h with hown
  cases h
  exact ⟨hown.1, hown.2, rfl⟩

lemma Batch.moveItem_eq_some {b b' : Batch} {r : Nat} {now : Int} {x : String} {item : Item} {source : ItemState}
    {moved : Bool} (h : b.moveItem r now x item source = some (moved, b')) :
    b.owner = r ∧ b.finished = false ∧ b'.owner = r ∧ b'.finished = false ∧
      ((moved = true ∧ (∃ it, b.items x = some it ∧ it.state = source) ∧ b'.items = Function.update b.items x (some item)) ∨
        (moved = false ∧ (∀ it, b.items x = some it → it.state ≠ source) ∧ b'.items = b.items)) := by
  obtain ⟨owned, howned, heq⟩ := Option.map_eq_some_iff.mp h
  obtain ⟨howner, hopen, rfl⟩ := Batch.beatOwned_eq_some howned
  refine ⟨howner, hopen, ?_⟩
  dsimp only at heq
  cases hit : b.items x with
  | none =>
    rw [hit] at heq
    cases heq
    exact ⟨howner, hopen, .inr ⟨rfl, by simp, rfl⟩⟩
  | some it =>
    rw [hit] at heq
    dsimp only at heq
    split_ifs at heq with hsource
    · cases heq
      exact ⟨howner, hopen, .inl ⟨rfl, ⟨it, rfl, hsource⟩, rfl⟩⟩
    · cases heq
      refine ⟨howner, hopen, .inr ⟨rfl, ?_, rfl⟩⟩
      rintro _ ⟨⟩
      exact hsource

lemma Batch.moveItem_isSome {b : Batch} {r : Nat} (howner : b.owner = r) (hopen : b.finished = false) (now : Int) (x : String)
    (item : Item) (source : ItemState) : ∃ p, b.moveItem r now x item source = some p := by
  rw [Batch.moveItem, Batch.beatOwned, if_pos ⟨howner, hopen⟩]
  exact ⟨_, rfl⟩

lemma moveStep_cases {r : Nat} {x : String} {m m' : Move} {c : Choice} (h : moveStep scan s r x m c = some (s', m')) :
    (s'.batch = s.batch ∨ ∃ moved, s.batch.moveItem r c.now x m.item m.source = some (moved, s'.batch)) ∧
      (s'.runs = s.runs ∨ s' = s.lose r) ∧ s'.named = s.named ∧
      m'.before = m.before ∧ m'.item = m.item ∧ m'.source = m.source := by
  have hagain : ∀ (n : Move) (down : Bool), (n.again scan down).before = n.before ∧ (n.again scan down).item = n.item ∧
      (n.again scan down).source = n.source := by
    intro n down
    unfold Move.again
    split_ifs <;> exact ⟨rfl, rfl, rfl⟩
  unfold moveStep at h
  split at h
  · cases h
    exact ⟨.inl rfl, .inl rfl, rfl, rfl, rfl, rfl⟩
  · split at h
    · split at h <;> cases h
      · exact ⟨.inl rfl, .inl rfl, rfl, rfl, rfl, rfl⟩
      · exact ⟨.inl rfl, .inl rfl, rfl, hagain _ _⟩
    · rename_i moved batch hmove
      dsimp only at h
      split at h <;> cases h
      · exact ⟨.inr ⟨moved, hmove⟩, .inl rfl, rfl, rfl, rfl, rfl⟩
      · exact ⟨.inr ⟨moved, hmove⟩, .inl rfl, rfl, hagain _ _⟩
      · exact ⟨.inl rfl, .inl rfl, rfl, hagain _ _⟩
  · split at h <;> cases h <;> exact ⟨.inl rfl, .inl rfl, rfl, rfl, rfl, rfl⟩
  · cases h
    exact ⟨.inl rfl, .inr rfl, rfl, rfl, rfl, rfl⟩
  · cases h

lemma State.claim_eq_some {r : Nat} {now : Int} (h : s.claim scan r now = some s') :
    s.batch.finished = false ∧ s'.batch = { s.batch with owner := r, heartbeat := now } ∧ s'.named = s.named ∧
      s'.runs = if s.batch.owner = r then s.runs
        else Function.update s.runs s.batch.owner { s.runs s.batch.owner with displaced := true } := by
  obtain ⟨batch, hbatch, rfl⟩ := Option.map_eq_some_iff.mp h
  unfold Batch.claim at hbatch
  split_ifs at hbatch with hclaim
  cases hbatch
  refine ⟨hclaim.1, ?_⟩
  split_ifs <;> exact ⟨rfl, rfl, rfl⟩

lemma writes_of_claim {a : Action} {r : Nat} {now : Int} (h : s.claim scan r now = some s') : Writes s a s'.batch := by
  obtain ⟨hopen, hbatch, -, -⟩ := State.claim_eq_some h
  refine .same (by rw [hbatch]) (by rw [hbatch]) ?_
  intro hfinished
  rw [hopen] at hfinished
  cases hfinished

lemma writes_self (s : State) (a : Action) : Writes s a s.batch := .same rfl rfl fun _ => rfl

lemma writes_of_getD_claim {a : Action} {r : Nat} {now : Int} : Writes s a ((s.claim scan r now).getD s).batch := by
  cases h : s.claim scan r now with
  | none => exact writes_self s a
  | some s' => exact writes_of_claim h

lemma writes_of_moveStep {a : Action} {r : Nat} {x : String} {m m' : Move} {c : Choice} (ha : a.isOf r) (hm : Moving s r x m)
    (h : moveStep scan s r x m c = some (s', m')) : Writes s a s'.batch := by
  obtain ⟨hbatch | ⟨moved, hmove⟩, -⟩ := moveStep_cases h
  · rw [hbatch]
    exact writes_self s a
  · obtain ⟨hr, hopen, howner, hfinished, ⟨-, ⟨it, hit, hsource⟩, hitems⟩ | ⟨-, -, hitems⟩⟩ := Batch.moveItem_eq_some hmove
    · exact .move ha hm hr hopen hit hsource hitems hfinished howner
    · exact .same hitems (hfinished.trans hopen.symm) fun _ => howner.trans hr.symm

lemma step_writes {a : Action} (h : step scan s a = some s') : Writes s a s'.batch := by
  cases a with
  | worker r x c =>
    have ha : (Action.worker r x c).isOf r := .inl ⟨x, c, rfl⟩
    simp only [step, stepWorker] at h
    split at h
    · cases h
    · cases h
      exact writes_self s _
    · rename_i m next hworker
      split at h
      · cases h
        exact writes_self s _
      · cases h
        exact writes_self s _
      · cases h
        exact writes_self s _
      · obtain ⟨⟨t, m'⟩, hmove, rfl⟩ := Option.map_eq_some_iff.mp h
        exact (writes_of_moveStep ha (.inl ⟨_, hworker⟩) hmove : Writes s _ t.batch)
    · split at h <;> cases h <;> exact writes_self s _
  | main r c =>
    have ha : (Action.main r c).isOf r := .inr ⟨c, rfl⟩
    simp only [step, stepMain] at h
    split at h
    · split at h <;> cases h <;> exact writes_self s _
    · split at h <;> cases h <;> exact writes_self s _
    · split_ifs at h
      · cases h
        exact writes_self s _
      · split at h <;> cases h <;> exact writes_self s _
    · cases h
      exact writes_self s _
    · split_ifs at h <;> cases h <;> exact writes_self s _
    · rename_i x m seen todo hphase
      split at h
      · cases h
        exact writes_self s _
      · cases h
        exact writes_self s _
      · obtain ⟨⟨t, m'⟩, hmove, rfl⟩ := Option.map_eq_some_iff.mp h
        exact (writes_of_moveStep ha (.inr ⟨seen, todo, hphase⟩) hmove : Writes s _ t.batch)
    · cases h
      exact writes_self s _
    · split_ifs at h <;> cases h <;> exact writes_self s _
    · rename_i hphase
      split at h
      · cases h
        exact writes_self s _
      · cases h
        show Writes s _ ((s.batch.finish r c.now).getD s.batch)
        cases hfinish : s.batch.finish r c.now with
        | none => exact writes_self s _
        | some batch =>
          obtain ⟨owned, howned, rfl⟩ := Option.map_eq_some_iff.mp hfinish
          obtain ⟨hr, hopen, rfl⟩ := Batch.beatOwned_eq_some howned
          exact .finish ha hphase hr hopen rfl rfl hr
    · cases h
  | beat r c =>
    simp only [step, stepBeat] at h
    split at h
    · cases h
    · split_ifs at h
      · cases h
        exact writes_self s _
      · split at h
        · split at h
          · rename_i t hclaim
            cases h
            exact (writes_of_claim hclaim : Writes s _ t.batch)
          · cases h
            exact writes_self s _
        · cases h
          exact writes_of_getD_claim
        · cases h
          exact writes_self s _
    · split_ifs at h <;> cases h <;> exact writes_self s _
    · cases h
      exact writes_self s _
  | takeOver c =>
    cases h
    simp only [takeOver]
    split
    · split
      · rename_i t hclaim
        exact (writes_of_claim hclaim : Writes s _ t.batch)
      · exact writes_self s _
    · exact writes_of_getD_claim
    · exact writes_self s _
  | cancel =>
    cases h
    exact .same rfl rfl fun _ => rfl
  | stop r =>
    cases h
    exact writes_self s _
  | crash r =>
    cases h
    exact writes_self s _

end SqlMcpServer.Leasing
