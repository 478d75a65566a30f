import SqlMcpServer.Leasing.Knowledge

namespace SqlMcpServer.Leasing
variable {scan : Scan} {s s' : State}

lemma Sound.moving_source (hs : Sound scan s) {r : Nat} {x : String} {m : Move} (h : Moving s r x m) :
    m.source = .pending ∨ m.source = .running := by
  rcases h with ⟨next, hworker⟩ | ⟨seen, todo, hphase⟩
  · have hfits := (hs.fits r).workers x
    rw [hworker] at hfits
    cases hfits with
    | moving hm _ _ => exact hm.source
  · exact ((hs.fits r).phase x m seen todo hphase).source

/-- An item that a step changed was pending or running, in the unfinished batch of the run
whose step it was. -/
lemma changed_of_step (hs : Sound scan s) {a : Action} (h : step scan s a = some s') {x : String}
    (hx : s'.batch.items x ≠ s.batch.items x) :
    a.isOf s.batch.owner ∧ s.batch.finished = false ∧ ∃ it, s.batch.items x = some it ∧ ¬ Settled it := by
  cases step_writes h with
  | same hitems _ _ => exact absurd (congrFun hitems x) hx
  | @move r y m it ha hm hr hopen hit hsource hitems _ _ =>
    have hyx : x = y := by
      by_contra hne
      exact hx (by rw [hitems, Function.update_of_ne hne])
    subst hyx
    refine ⟨hr ▸ ha, hopen, it, hit, ?_⟩
    rintro ⟨hpending, hrunning⟩
    rcases hs.moving_source hm with h | h
    · exact hpending (hsource.trans h)
    · exact hrunning (hsource.trans h)
  | @finish r ha _ hr hopen hitems _ _ =>
    have hended : s'.batch.items x = (s.batch.items x).map Batch.ended := congrFun hitems x
    cases hit : s.batch.items x with
    | none => exact absurd (by rw [hended, hit]; rfl) hx
    | some it =>
      refine ⟨hr ▸ ha, hopen, it, rfl, ?_⟩
      rintro ⟨hpending, hrunning⟩
      apply hx
      rw [hended, hit, Option.map_some, Batch.ended, if_neg (by tauto)]

lemma Sound.honest (hs : Sound scan s) {r : Nat} {x : String} {m : Move} (h : Moving s r x m)
    (hd : (s.runs r).displaced = false) : m.Honest (s.runs r).lost := by
  rcases hs.good r hd with hquiet | hheld
  · rcases h with ⟨next, hworker⟩ | ⟨seen, todo, hphase⟩
    · rw [hquiet.workers x] at hworker
      cases hworker
    · rw [hquiet.phase] at hphase
      cases hphase
  · rcases h with ⟨next, hworker⟩ | ⟨seen, todo, hphase⟩
    · exact hheld.honest x m next hworker
    · exact hheld.main.honest x m seen todo hphase

lemma finished_of_step {a : Action} (h : step scan s a = some s') (hfinished : s.batch.finished = true) :
    s'.batch.finished = true ∧ s'.batch.owner = s.batch.owner := by
  cases step_writes h with
  | same _ heq howner => exact ⟨heq.trans hfinished, howner hfinished⟩
  | move _ _ _ hopen => rw [hopen] at hfinished; cases hfinished
  | finish _ _ _ hopen => rw [hopen] at hfinished; cases hfinished

lemma State.claim_of_finished (hfinished : s.batch.finished = true) (r : Nat) (now : Int) : s.claim scan r now = none := by
  cases h : s.claim scan r now with
  | none => rfl
  | some t =>
    rw [(State.claim_eq_some h).1] at hfinished
    cases hfinished

/-- In every state runs reach: a step changes items only as a step of the run that owns the
unfinished batch, and never a settled one; a finished batch has settled items only and is
never claimed again; and what `move` returns to a run no other claimed the batch from is
right, true of a write that took effect and false, while the run goes on, of one that did
not. -/
theorem leased_moves {now : Int} (hs : Reachable scan now s) :
    (∀ a s', step scan s a = some s' →
      (∀ x, s'.batch.items x ≠ s.batch.items x → a.isOf s.batch.owner ∧ s.batch.finished = false) ∧
      (∀ x it, s.batch.items x = some it → Settled it → s'.batch.items x = some it) ∧
      (s.batch.finished = true → s'.batch.finished = true ∧ s'.batch.owner = s.batch.owner)) ∧
    (s.batch.finished = true →
      (∀ x it, s.batch.items x = some it → Settled it) ∧ ∀ r now, s.claim scan r now = none) ∧
    ∀ r x m moved, Moving s r x m → m.stage = .returned moved → (s.runs r).displaced = false →
      (moved = true → m.made = true) ∧ (moved = false → (s.runs r).lost = false → m.made = false) := by
  have hsound := reachable_sound hs
  refine ⟨?_, ?_, ?_⟩
  · intro a s' h
    refine ⟨?_, ?_, finished_of_step h⟩
    · intro x hx
      obtain ⟨ha, hopen, -⟩ := changed_of_step hsound h hx
      exact ⟨ha, hopen⟩
    · intro x it hit hsettled
      by_contra hne
      obtain ⟨-, -, old, hold, hnot⟩ := changed_of_step hsound h (fun heq => hne (heq.trans hit))
      rw [hit] at hold
      cases hold
      exact hnot hsettled
  · intro hfinished
    exact ⟨hsound.settled hfinished, State.claim_of_finished hfinished⟩
  · intro r x m moved hm hstage hd
    exact hsound.honest hm hd moved hstage

namespace Retry

def shop : Scan where
  schemas := ["shop"]
  nodup := by simp
  attempts := 1
  moveTries := 3
  stale := 30000000
  backoff := 0

def answered (now : Int) : Choice := { now }

/-- Run 0 starts the batch and is about to write that its item is running. -/
def begun : List Action :=
  [.main 0 {}, .main 0 {}, .worker 0 "shop" {}, .worker 0 "shop" {}]

/-- The answer of its write is lost; it tries again, and is told the item is not pending. -/
def unanswered : List Action :=
  begun ++ [.worker 0 "shop" { now := 1, reply := .lost }, .worker 0 "shop" {}, .worker 0 "shop" (answered 2)]

def readBack : List Action := unanswered ++ [.worker 0 "shop" {}]

/-- Run 1 takes the batch over and queues the item again before run 0 reads it. -/
def requeued : List Action :=
  unanswered ++
    [.takeOver (answered 31000000), .main 1 {}, .main 1 {}, .main 1 {}, .main 1 {}, .main 1 (answered 31000000),
      .worker 0 "shop" {}]

/-- Its write fails. Run 1 takes over, starts the item and stops beating; run 0's heartbeat claims
the batch back before it tries again. -/
def regained : List Action :=
  begun ++
    [.worker 0 "shop" { now := 1, reply := .failed },
      .takeOver (answered 31000000), .main 1 {}, .main 1 {}, .main 1 {}, .main 1 {}, .main 1 {},
      .worker 1 "shop" {}, .worker 1 "shop" {}, .worker 1 "shop" (answered 31000000),
      .beat 0 (answered 62000000), .worker 0 "shop" {}, .worker 0 "shop" (answered 62000000), .worker 0 "shop" {}]

def moveOf (acts : List Action) : Option (Move × Bool × Bool) :=
  (Transition.run (step shop) (start shop 0) acts).bind fun s =>
    match (s.runs 0).workers "shop" with
    | .moving m _ => some (m, (s.runs 0).lost, (s.runs 0).displaced)
    | _ => none

lemma reachable_of_moveOf {acts : List Action} {m : Move} {lost displaced : Bool} (h : moveOf acts = some (m, lost, displaced)) :
    ∃ s, Reachable shop 0 s ∧ Moving s 0 "shop" m ∧ (s.runs 0).lost = lost ∧ (s.runs 0).displaced = displaced := by
  obtain ⟨s, hrun, hs⟩ := Option.bind_eq_some_iff.mp h
  refine ⟨s, Transition.reachable_of_run (.start trivial) hrun, ?_⟩
  split at hs
  · rename_i next hworker
    cases hs
    exact ⟨.inl ⟨next, hworker⟩, rfl, rfl⟩
  · cases hs

/-- An item read back after a lost answer: the write had taken effect. -/
theorem leased_moves_readBack :
    ∃ s m, Reachable shop 0 s ∧ Moving s 0 "shop" m ∧ m.stage = .returned true ∧ m.made = true := by
  obtain ⟨⟨m, lost, displaced⟩, hm, heq⟩ := Option.map_eq_some_iff.mp
    (by decide : (moveOf readBack).map (fun p => (p.1.stage, p.2.2)) = some (.returned true, false))
  obtain ⟨hstage, hdisplaced⟩ := Prod.mk.inj heq
  obtain ⟨s, hs, hmoving, -, hd⟩ := reachable_of_moveOf hm
  exact ⟨s, m, hs, hmoving, hstage, ((leased_moves hs).2.2 0 "shop" m true hmoving hstage (hd.trans hdisplaced)).1 rfl⟩

/-- A write that took effect counts as not made, in a run that goes on; and one that never
did counts as made. -/
theorem displaced_moves :
    (∃ s m, Reachable shop 0 s ∧ Moving s 0 "shop" m ∧ m.stage = .returned false ∧ (s.runs 0).lost = false ∧ m.made = true) ∧
      ∃ s m, Reachable shop 0 s ∧ Moving s 0 "shop" m ∧ m.stage = .returned true ∧ m.made = false := by
  constructor
  · obtain ⟨⟨m, lost, displaced⟩, hm, heq⟩ := Option.map_eq_some_iff.mp
      (by decide : (moveOf requeued).map (fun p => (p.1.stage, p.2.1, p.1.made)) = some (.returned false, false, true))
    simp only [Prod.mk.injEq] at heq
    obtain ⟨s, hs, hmoving, hlost, -⟩ := reachable_of_moveOf hm
    exact ⟨s, m, hs, hmoving, heq.1, hlost.trans heq.2.1, heq.2.2⟩
  · obtain ⟨⟨m, lost, displaced⟩, hm, heq⟩ := Option.map_eq_some_iff.mp
      (by decide : (moveOf regained).map (fun p => (p.1.stage, p.1.made)) = some (.returned true, false))
    simp only [Prod.mk.injEq] at heq
    obtain ⟨s, hs, hmoving, -, -⟩ := reachable_of_moveOf hm
    exact ⟨s, m, hs, hmoving, heq.1, heq.2⟩

end Retry

end SqlMcpServer.Leasing
