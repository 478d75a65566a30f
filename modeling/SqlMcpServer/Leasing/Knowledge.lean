import SqlMcpServer.Leasing.Writes
import Mathlib.Tactic.Tauto
import Mathlib.Order.Basic
import Mathlib.Data.Nat.Basic

/-!
# What a run knows

A run no other claimed the batch from owns it until it is over, and holds each item, in its queue,
with a worker or in the main goroutine, as the store has it.
-/

namespace SqlMcpServer.Leasing

open List
variable {scan : Scan} {s s' : State}

def Move.current (m : Move) : Item := if m.made then m.item else m.before

/-- A move is from the state the run knew, pending or running, to another; a write made
before a try was one whose answer was lost. -/
structure Move.Fits (m : Move) : Prop where
  source : m.source = .pending ∨ m.source = .running
  before : m.before.state = m.source
  item : m.item.state ≠ m.source
  failed : m.made = true → m.stage = .trying ∨ m.stage = .writing → m.failed = true

/-- What a call of `move` returned is right: true of a write that took effect, and, while the
run is not lost, false of one that did not. -/
def Move.Honest (m : Move) (lost : Bool) : Prop :=
  ∀ moved, m.stage = .returned moved → (moved = true → m.made = true) ∧ (moved = false → lost = false → m.made = false)

/-- What each place of an item says of its state. -/
inductive Worker.Fits : Worker → Prop where
  | idle : Worker.Fits .idle
  | queued {it : Item} (h : it.state = .pending) : Worker.Fits (.queued it)
  | moving {m : Move} {next : Next} (h : m.Fits) (hwork : next = .work → m.item.state = .running)
      (hretry : next = .retry → m.item.state = .pending) : Worker.Fits (.moving m next)
  | working {it : Item} (h : it.state = .running) : Worker.Fits (.working it)

def Worker.known : Worker → Option Item
  | .idle => none
  | .queued it | .working it => some it
  | .moving m _ => some m.current

def Phase.known (scan : Scan) : Phase → List (String × Item)
  | .created => scan.schemas.map fun x => (x, {})
  | .taken items _ | .execute items => items
  | .requeuing seen todo => seen ++ todo
  | .requeueMove x m seen todo => seen ++ (x, m.current) :: todo
  | .claimed | .waiting | .finishing | .ended => []

structure Run.Fits (run : Run) : Prop where
  workers : ∀ x, (run.workers x).Fits
  phase : ∀ x m seen todo, run.phase = .requeueMove x m seen todo → m.Fits

/-- Nothing of the run goes on but its heartbeat. -/
structure Run.Quiet (run : Run) : Prop where
  phase : run.phase = .ended
  workers : ∀ x, run.workers x = .idle

structure Phase.Holds (scan : Scan) (b : Batch) (phase : Phase) (lost : Bool) : Prop where
  items : ∀ p ∈ phase.known scan, b.items p.1 = some p.2
  keys : ((phase.known scan).map (·.1)).Nodup
  honest : ∀ x m seen todo, phase = .requeueMove x m seen todo → m.Honest lost

/-- The run owns the unfinished batch, whose items are as it knows them. -/
structure Held (scan : Scan) (b : Batch) (r : Nat) (run : Run) : Prop where
  owner : b.owner = r
  unfinished : b.finished = false
  idle : run.phase ≠ .waiting → ∀ x, run.workers x = .idle
  workers : ∀ x it, (run.workers x).known = some it → b.items x = some it
  honest : ∀ x m next, run.workers x = .moving m next → m.Honest run.lost
  main : run.phase.Holds scan b run.lost

def Good (scan : Scan) (b : Batch) (r : Nat) (run : Run) : Prop :=
  run.displaced = false → run.Quiet ∨ Held scan b r run

def Settled (it : Item) : Prop := it.state ≠ .pending ∧ it.state ≠ .running

structure Sound (scan : Scan) (s : State) : Prop where
  owner : s.batch.owner < s.named
  unborn : ∀ r, s.named ≤ r → (s.runs r).Quiet ∧ (s.runs r).beat = .ended
  schemas : ∀ x it, s.batch.items x = some it → x ∈ scan.schemas
  settled : s.batch.finished = true → ∀ x it, s.batch.items x = some it → Settled it
  fits : ∀ r, (s.runs r).Fits
  good : ∀ r, Good scan s.batch r (s.runs r)

variable {b : Batch} {lost : Bool}

lemma Phase.holds_of_nil {phase : Phase} (h : phase.known scan = []) : phase.Holds scan b lost := by
  refine ⟨by simp [h], by simp [h], ?_⟩
  rintro x m seen todo rfl
  simp [Phase.known] at h

variable {m : Move}

lemma Move.Honest.mono {lost' : Bool} (h : m.Honest lost) (hlost : lost = true → lost' = true) :
    m.Honest lost' := by
  intro moved hstage
  refine ⟨(h moved hstage).1, fun hfalse hrun => (h moved hstage).2 hfalse ?_⟩
  cases lost with
  | false => rfl
  | true => rw [hlost rfl] at hrun; cases hrun

variable {b' : Batch} {r : Nat} {run run' : Run}

lemma Held.frame (h : Held scan b r run) (hphase : run'.phase = run.phase)
    (hworkers : run'.workers = run.workers) (hlost : run.lost = true → run'.lost = true) (hitems : b'.items = b.items)
    (howner : b'.owner = b.owner) (hfinished : b'.finished = b.finished) : Held scan b' r run' where
  owner := howner.trans h.owner
  unfinished := hfinished.trans h.unfinished
  idle := by
    rw [hphase, hworkers]
    exact h.idle
  workers := by
    rw [hworkers, hitems]
    exact h.workers
  honest := by
    intro x m next hm
    rw [hworkers] at hm
    exact (h.honest x m next hm).mono hlost
  main := by
    rw [hphase]
    exact ⟨by rw [hitems]; exact h.main.items, h.main.keys, fun x m seen todo hm => (h.main.honest x m seen todo hm).mono hlost⟩

lemma Good.frame (h : Good scan b r run) (hphase : run'.phase = run.phase)
    (hworkers : run'.workers = run.workers) (hlost : run.lost = true → run'.lost = true)
    (hdisplaced : run'.displaced = run.displaced) (hitems : b'.items = b.items)
    (howner : b'.owner = b.owner) (hfinished : b'.finished = b.finished) : Good scan b' r run' := by
  intro hd
  rcases h (hdisplaced ▸ hd) with hquiet | hheld
  · exact .inl ⟨hphase.trans hquiet.phase, fun x => by rw [hworkers]; exact hquiet.workers x⟩
  · exact .inr (hheld.frame hphase hworkers hlost hitems howner hfinished)

lemma Good.quiet (h : Good scan b r run) (howner : b.owner ≠ r) (hd : run.displaced = false) :
    run.Quiet := (h hd).resolve_right fun hheld => howner hheld.owner

lemma Sound.update (h : Sound scan s)
    (hr : s.named ≤ r → run.Quiet ∧ run.beat = .ended) (hfits : run.Fits)
    (hgood : Good scan b r run) (hb : b = s.batch ∨ s.batch.owner = r) (howner : b.owner = s.batch.owner)
    (hschemas : ∀ x it, b.items x = some it → x ∈ scan.schemas)
    (hsettled : b.finished = true → ∀ x it, b.items x = some it → Settled it) :
    Sound scan ⟨b, Function.update s.runs r run, s.named⟩ where
  owner := howner ▸ h.owner
  unborn := (Function.forall_update_iff s.runs fun r' run => s.named ≤ r' → run.Quiet ∧ run.beat = .ended).mpr
    ⟨hr, fun r' _ => h.unborn r'⟩
  schemas := hschemas
  settled := hsettled
  fits := (Function.forall_update_iff s.runs fun _ run => run.Fits).mpr ⟨hfits, fun r' _ => h.fits r'⟩
  good := by
    refine (Function.forall_update_iff s.runs (Good scan b)).mpr ⟨hgood, fun r' hne => ?_⟩
    rcases hb with rfl | hb
    · exact h.good r'
    · exact fun hd => .inl ((h.good r').quiet (fun hown => hne (hown.symm.trans hb)) hd)

lemma Sound.setRun (h : Sound scan s) (hr : r < s.named) (hfits : run.Fits)
    (hgood : Good scan s.batch r run) : Sound scan (s.setRun r run) :=
  h.update (fun hle => absurd hr (not_lt.mpr hle)) hfits hgood (.inl rfl) rfl h.schemas h.settled

lemma Move.fits_again (hsource : m.source = .pending ∨ m.source = .running) (hbefore : m.before.state = m.source)
    (hitem : m.item.state ≠ m.source) (down : Bool) : (m.again scan down).Fits := by
  unfold Move.again
  split_ifs <;> exact ⟨hsource, hbefore, hitem, by simp⟩

lemma Move.again_stage (m : Move) (down moved : Bool) : (m.again scan down).stage ≠ .returned moved := by
  unfold Move.again
  split_ifs <;> simp

lemma Move.again_current (m : Move) (down : Bool) : (m.again scan down).current = m.current := by
  unfold Move.again
  split_ifs <;> rfl

lemma Move.honest_of_stage (h : ∀ moved, m.stage ≠ .returned moved) : m.Honest lost :=
  fun moved hstage => absurd hstage (h moved)

variable {x : String} {m' : Move} {c : Choice}

lemma moveStep_fits (hm : m.Fits)
    (h : moveStep scan s r x m c = some (s', m')) : m'.Fits := by
  unfold moveStep at h
  split at h
  · rename_i hstage
    cases h
    exact ⟨hm.source, hm.before, hm.item, fun hmade _ => hm.failed hmade (.inl hstage)⟩
  · split at h
    · split at h <;> cases h
      · exact ⟨hm.source, hm.before, hm.item, by simp⟩
      · exact Move.fits_again hm.source hm.before hm.item c.down
    · dsimp only at h
      split at h <;> cases h
      · refine ⟨hm.source, hm.before, hm.item, ?_⟩
        dsimp only
        split_ifs <;> simp
      · apply Move.fits_again
        exacts [hm.source, hm.before, hm.item]
      · exact Move.fits_again hm.source hm.before hm.item c.down
  · split at h <;> cases h <;> exact ⟨hm.source, hm.before, hm.item, by simp⟩
  · cases h
    exact ⟨hm.source, hm.before, hm.item, by simp⟩
  · cases h

lemma moveStep_runs (h : moveStep scan s r x m c = some (s', m')) :
    s'.runs = Function.update s.runs r (s'.runs r) ∧ (s'.runs r).phase = (s.runs r).phase ∧
      (s'.runs r).workers = (s.runs r).workers ∧ (s'.runs r).displaced = (s.runs r).displaced ∧
      ((s.runs r).lost = true → (s'.runs r).lost = true) := by
  obtain ⟨-, hruns | rfl, -⟩ := moveStep_cases h
  · rw [hruns, Function.update_eq_self]
    exact ⟨rfl, rfl, rfl, rfl, id⟩
  · simp [State.lose, State.setRun]

/-- A step of `move` by the run that holds the batch: the item is what the move says it left,
and what the move returns is right. -/
lemma moveStep_held (h : moveStep scan s r x m c = some (s', m'))
    (howner : s.batch.owner = r) (hopen : s.batch.finished = false) (hm : m.Fits) (hitem : s.batch.items x = some m.current) :
    s'.batch.items = Function.update s.batch.items x (some m'.current) ∧ s'.batch.owner = r ∧ s'.batch.finished = false ∧
      m'.Honest (s'.runs r).lost := by
  have hsame : s.batch.items = Function.update s.batch.items x (some m.current) := by
    rw [← hitem, Function.update_eq_self]
  unfold moveStep at h
  split at h
  · cases h
    refine ⟨hsame, howner, hopen, ?_⟩
    intro moved hstage
    dsimp only at hstage
    split_ifs at hstage with hlost
    cases hstage
    simp [hlost]
  · rename_i hstage
    obtain ⟨⟨moved, b⟩, hmove⟩ := Batch.moveItem_isSome howner hopen c.now x m.item m.source
    rw [hmove] at h
    dsimp only at h
    obtain ⟨-, -, howner', hopen', hwrote⟩ := Batch.moveItem_eq_some hmove
    have hitems : b.items = Function.update s.batch.items x (some { m with made := m.made || moved }.current) := by
      rcases hwrote with ⟨rfl, -, hitems⟩ | ⟨rfl, -, hitems⟩
      · simp [hitems, Move.current]
      · rw [hitems, Bool.or_false]
        exact hsame
    split at h <;> cases h
    · refine ⟨hitems, howner', hopen', ?_⟩
      intro moved' hreturned
      dsimp only at hreturned
      split_ifs at hreturned with hmoved
      cases hreturned
      refine ⟨by rintro rfl; simp, ?_⟩
      rintro rfl -
      have hfailed : m.failed = false := by simpa using hmoved
      have hmade : m.made ≠ true := fun hmade => by simp [hm.failed hmade (.inr hstage)] at hfailed
      simpa using hmade
    · refine ⟨?_, howner', hopen', Move.honest_of_stage (Move.again_stage _ _)⟩
      rw [Move.again_current]
      exact hitems
    · refine ⟨?_, howner, hopen, Move.honest_of_stage (Move.again_stage _ _)⟩
      rw [Move.again_current]
      exact hsame
  · split at h <;> cases h
    · refine ⟨hsame, howner, hopen, ?_⟩
      intro moved hreturned
      -- the item read back is the one before the move or the one it wrote, of different states
      have hread : moved = decide (some m.current = some m.item) := by
        rw [← hitem]
        exact (Stage.returned.inj hreturned).symm
      have hne : m.before ≠ m.item := fun heq => hm.item (heq ▸ hm.before)
      cases hmade : m.made <;> simp [hread, Move.current, hmade, hne]
    · exact ⟨hsame, howner, hopen, Move.honest_of_stage (by simp)⟩
  · cases h
    refine ⟨hsame, howner, hopen, ?_⟩
    intro moved hreturned
    cases hreturned
    simp [State.lose, State.setRun]
  · cases h

lemma Run.Quiet.of_unborn (h : Sound scan s) (hr : ¬ r < s.named) : (s.runs r).Quiet :=
  (h.unborn r (not_lt.mp hr)).1

lemma Sound.named_of_worker (h : Sound scan s) (hx : (s.runs r).workers x ≠ .idle) : r < s.named := by
  by_contra hr
  exact hx ((Run.Quiet.of_unborn h hr).workers x)

lemma Sound.named_of_phase (h : Sound scan s) (hphase : (s.runs r).phase ≠ .ended) : r < s.named := by
  by_contra hr
  exact hphase (Run.Quiet.of_unborn h hr).phase

lemma Run.Fits.setWorker (h : run.Fits) (x : String) {w : Worker} (hw : w.Fits) :
    Run.Fits { run with workers := Function.update run.workers x w } where
  workers := (Function.forall_update_iff run.workers fun _ w => w.Fits).mpr ⟨hw, fun y _ => h.workers y⟩
  phase := h.phase

lemma Held.setWorker {w : Worker} (h : Held scan b r run)
    (hx : run.workers x ≠ .idle) (hphase : run'.phase = run.phase) (hworkers : run'.workers = run.workers)
    (hlost : run.lost = true → run'.lost = true) (howner : b'.owner = b.owner) (hfinished : b'.finished = b.finished)
    (hitems : ∀ y, y ≠ x → b'.items y = b.items y) (hknown : ∀ it, w.known = some it → b'.items x = some it)
    (hhonest : ∀ m next, w = .moving m next → m.Honest run'.lost) :
    Held scan b' r { run' with workers := Function.update run'.workers x w } := by
  have hwaiting : run.phase = .waiting := by
    by_contra hne
    exact hx (h.idle hne x)
  refine ⟨howner.trans h.owner, hfinished.trans h.unfinished, ?_, ?_, ?_, ?_⟩ <;> dsimp only
  · intro hne
    exact absurd (hphase.trans hwaiting) hne
  · rw [hworkers, Function.forall_update_iff run.workers fun y w => ∀ it, w.known = some it → b'.items y = some it]
    exact ⟨hknown, fun y hy it hit => (hitems y hy).trans (h.workers y it hit)⟩
  · rw [hworkers, Function.forall_update_iff run.workers fun _ w => ∀ m next, w = .moving m next → m.Honest run'.lost]
    exact ⟨hhonest, fun y _ m next hm => (h.honest y m next hm).mono hlost⟩
  · rw [hphase, hwaiting]
    exact Phase.holds_of_nil rfl

lemma Sound.setWorker (h : Sound scan s) {w : Worker} (hx : (s.runs r).workers x ≠ .idle) (hw : w.Fits)
    (hknown : Held scan s.batch r (s.runs r) → ∀ it, w.known = some it → s.batch.items x = some it)
    (hhonest : ∀ m next, w = .moving m next → m.Honest (s.runs r).lost) : Sound scan (s.setWorker r x w) := by
  refine h.setRun (h.named_of_worker hx) ((h.fits r).setWorker x hw) ?_
  intro hd
  rcases h.good r hd with hquiet | hheld
  · exact absurd (hquiet.workers x) hx
  · exact .inr (hheld.setWorker hx rfl rfl id rfl rfl (fun _ _ => rfl) (hknown hheld) hhonest)

lemma moveStep_batch (hs : Sound scan s)
    (h : moveStep scan s r x m c = some (s', m')) :
    (s'.batch = s.batch ∨ s.batch.owner = r) ∧ s'.batch.owner = s.batch.owner ∧
      (∀ y it, s'.batch.items y = some it → y ∈ scan.schemas) ∧
      (s'.batch.finished = true → ∀ y it, s'.batch.items y = some it → Settled it) := by
  obtain ⟨hbatch | ⟨moved, hmove⟩, -⟩ := moveStep_cases h
  · rw [hbatch]
    exact ⟨.inl rfl, rfl, hs.schemas, hs.settled⟩
  · obtain ⟨howner, hopen, howner', hopen', hwrote⟩ := Batch.moveItem_eq_some hmove
    refine ⟨.inr howner, howner'.trans howner.symm, ?_, by simp [hopen']⟩
    intro y it hy
    rcases hwrote with ⟨-, ⟨old, hold, -⟩, hitems⟩ | ⟨-, -, hitems⟩
    · rw [hitems] at hy
      by_cases hyx : y = x
      · subst hyx
        exact hs.schemas y old hold
      · rw [Function.update_of_ne hyx] at hy
        exact hs.schemas y it hy
    · rw [hitems] at hy
      exact hs.schemas y it hy

lemma Sound.moveStep (hs : Sound scan s) {t : State}
    (h : Leasing.moveStep scan s r x m c = some (t, m')) (hr : r < s.named) (hfits : run.Fits) (hgood : Good scan t.batch r run) :
    Sound scan (t.setRun r run) := by
  obtain ⟨hb, howner, hschemas, hsettled⟩ := moveStep_batch hs h
  obtain ⟨hruns, -⟩ := moveStep_runs h
  obtain ⟨-, -, hnamed, -⟩ := moveStep_cases h
  have heq : t.setRun r run = ⟨t.batch, Function.update s.runs r run, s.named⟩ := by
    rw [State.setRun, hruns, Function.update_idem, hnamed]
  rw [heq]
  exact hs.update (fun hle => absurd hr (not_lt.mpr hle)) hfits hgood hb howner hschemas hsettled

lemma endItem_fits {it : Item} (h : it.state = .running) (outcome : Outcome) (msg : String) (now : Int) :
    (endItem scan it outcome msg now).Fits := by
  unfold endItem
  split_ifs
  · exact .moving ⟨.inr rfl, h, by simp, by simp⟩ (by simp) (by simp)
  · refine .moving ⟨.inr rfl, h, ?_, by simp⟩ (by simp) (by simp)
    cases outcome <;> simp [Outcome.state]

lemma endItem_known (it : Item) (outcome : Outcome) (msg : String) (now : Int) :
    (endItem scan it outcome msg now).known = some it := by
  unfold endItem
  split_ifs <;> rfl

variable {now : Int}

lemma endItem_stage {it : Item} {outcome : Outcome} {msg : String} {next : Next}
    (h : endItem scan it outcome msg now = .moving m next) : m.stage = .trying := by
  unfold endItem at h
  split_ifs at h <;> cases h <;> rfl

lemma stepWorker_sound (hs : Sound scan s) (h : stepWorker scan s r x c = some s') :
    Sound scan s' := by
  have hfits := (hs.fits r).workers x
  unfold stepWorker at h
  split at h
  · cases h
  · rename_i it hworker
    cases h
    rw [hworker] at hfits
    obtain - | hpending := hfits
    have hx : (s.runs r).workers x ≠ .idle := by simp [hworker]
    split_ifs
    · exact hs.setWorker hx .idle (by simp [Worker.known]) (by simp)
    · refine hs.setWorker hx (.moving ⟨.inl rfl, hpending, by simp [startItem], by simp [startItem]⟩ (by simp [startItem]) (by simp)) ?_ ?_
      · intro hheld it' hit
        refine hheld.workers x it' ?_
        rw [hworker]
        exact hit
      · rintro _ _ ⟨⟩
        exact Move.honest_of_stage (by simp [startItem])
  · rename_i m next hworker
    rw [hworker] at hfits
    obtain - | - | ⟨hm, hwork, hretry⟩ := hfits
    have hx : (s.runs r).workers x ≠ .idle := by simp [hworker]
    -- a move that returned true left the item it wrote
    have hmade : Held scan s.batch r (s.runs r) → m.stage = .returned true → s.batch.items x = some m.item := by
      intro hheld hstage
      have hmade := (hheld.honest x m next hworker true hstage).1 rfl
      have hitem := hheld.workers x m.current (by rw [hworker]; rfl)
      simpa [Move.current, hmade] using hitem
    split at h
    · rename_i hstage
      cases h
      refine hs.setWorker hx (.working (hwork rfl)) ?_ (by simp)
      rintro hheld _ ⟨⟩
      exact hmade hheld hstage
    · rename_i hstage
      cases h
      refine hs.setWorker hx (.queued (hretry rfl)) ?_ (by simp)
      rintro hheld _ ⟨⟩
      exact hmade hheld hstage
    · cases h
      exact hs.setWorker hx .idle (by simp [Worker.known]) (by simp)
    · obtain ⟨⟨t, m'⟩, hmove, rfl⟩ := Option.map_eq_some_iff.mp h
      obtain ⟨hruns, hphase, hworkers, hdisplaced, hlost⟩ := moveStep_runs hmove
      obtain ⟨-, -, -, -, hitem, -⟩ := moveStep_cases hmove
      have hrun : (t.runs r).Fits := ⟨by rw [hworkers]; exact (hs.fits r).workers, by rw [hphase]; exact (hs.fits r).phase⟩
      refine hs.moveStep hmove (hs.named_of_worker hx)
        (hrun.setWorker x (.moving (moveStep_fits hm hmove) (by rw [hitem]; exact hwork) (by rw [hitem]; exact hretry))) ?_
      intro hd
      rcases hs.good r (hdisplaced ▸ hd) with hquiet | hheld
      · exact absurd (hquiet.workers x) hx
      · have hcurrent : s.batch.items x = some m.current := hheld.workers x _ (by rw [hworker]; rfl)
        obtain ⟨hitems, howner, hopen, hhonest⟩ := moveStep_held hmove hheld.owner hheld.unfinished hm hcurrent
        refine .inr (hheld.setWorker hx hphase hworkers hlost (howner.trans hheld.owner.symm)
          (hopen.trans hheld.unfinished.symm) ?_ ?_ ?_)
        · intro y hy
          rw [hitems, Function.update_of_ne hy]
        · rintro _ ⟨⟩
          rw [hitems, Function.update_self]
        · rintro _ _ ⟨⟩
          exact hhonest
  · rename_i it hworker
    rw [hworker] at hfits
    obtain - | - | - | hrunning := hfits
    have hx : (s.runs r).workers x ≠ .idle := by simp [hworker]
    split at h <;> cases h
    · exact hs.setWorker hx .idle (by simp [Worker.known]) (by simp)
    · refine hs.setWorker hx (endItem_fits hrunning _ _ _) ?_ ?_
      · intro hheld it' hit
        rw [endItem_known] at hit
        refine hheld.workers x it' ?_
        rw [hworker]
        exact hit
      · intro m next hm
        exact Move.honest_of_stage (by simp [endItem_stage hm])

lemma Held.setPhase (h : Held scan b r run) (hidle : ∀ x, run.workers x = .idle)
    (hworkers : run'.workers = run.workers) (howner : b'.owner = b.owner) (hfinished : b'.finished = b.finished)
    (hmain : run'.phase.Holds scan b' run'.lost) : Held scan b' r run' where
  owner := howner.trans h.owner
  unfinished := hfinished.trans h.unfinished
  idle := by
    rw [hworkers]
    exact fun _ => hidle
  workers := by
    intro x it hx
    rw [hworkers, hidle x] at hx
    cases hx
  honest := by
    intro x m next hx
    rw [hworkers, hidle x] at hx
    cases hx
  main := hmain

lemma Sound.setPhase (h : Sound scan s) {phase : Phase} (hphase : (s.runs r).phase ≠ .ended)
    (hfits : ∀ x m seen todo, phase = .requeueMove x m seen todo → m.Fits)
    (hmain : Held scan s.batch r (s.runs r) →
      (∀ x, (s.runs r).workers x = .idle) ∧ phase.Holds scan s.batch (s.runs r).lost) :
    Sound scan (s.setPhase r phase) := by
  refine h.setRun (h.named_of_phase hphase) ⟨(h.fits r).workers, hfits⟩ ?_
  intro hd
  rcases h.good r hd with hquiet | hheld
  · exact absurd hquiet.phase hphase
  · exact .inr (hheld.setPhase (hmain hheld).1 rfl rfl rfl (hmain hheld).2)

lemma Good.ended (h : Good scan b r run) (hphase : run'.phase = .ended)
    (hworkers : run'.workers = run.workers) (hdisplaced : run'.displaced = run.displaced)
    (hidle : Held scan b r run → ∀ x, run.workers x = .idle) : Good scan b' r run' := by
  intro hd
  refine .inl ⟨hphase, ?_⟩
  rw [hworkers]
  rcases h (hdisplaced ▸ hd) with hquiet | hheld
  · exact hquiet.workers
  · exact hidle hheld

lemma Sound.endPhase (h : Sound scan s) (hphase : (s.runs r).phase ≠ .ended) (hended : run.phase = .ended)
    (hworkers : run.workers = (s.runs r).workers) (hdisplaced : run.displaced = (s.runs r).displaced)
    (hidle : Held scan s.batch r (s.runs r) → ∀ x, (s.runs r).workers x = .idle) : Sound scan (s.setRun r run) := by
  refine h.setRun (h.named_of_phase hphase) ⟨?_, ?_⟩ ((h.good r).ended hended hworkers hdisplaced hidle)
  · rw [hworkers]
    exact (h.fits r).workers
  · simp [hended]

lemma Sound.nextPhase (h : Sound scan s) {old phase : Phase} (hphase : (s.runs r).phase = old)
    (hmain : old.Holds scan s.batch (s.runs r).lost → phase.Holds scan s.batch (s.runs r).lost)
    (hold : old ≠ .ended ∧ old ≠ .waiting := by simp)
    (hfits : ∀ x m seen todo, phase = .requeueMove x m seen todo → m.Fits := by simp) : Sound scan (s.setPhase r phase) :=
  h.setPhase (hphase ▸ hold.1) hfits fun hheld => ⟨hheld.idle (hphase ▸ hold.2), hmain (hphase ▸ hheld.main)⟩

lemma Sound.endFrom (h : Sound scan s) {old : Phase} (hphase : (s.runs r).phase = old) (hended : run.phase = .ended)
    (hworkers : run.workers = (s.runs r).workers) (hdisplaced : run.displaced = (s.runs r).displaced)
    (hold : old ≠ .ended ∧ old ≠ .waiting := by simp) : Sound scan (s.setRun r run) :=
  h.endPhase (hphase ▸ hold.1) hended hworkers hdisplaced fun hheld => hheld.idle (hphase ▸ hold.2)

lemma Phase.Holds.same {old phase : Phase} (h : old.Holds scan b lost) (hknown : phase.known scan = old.known scan)
    (hno : ∀ x m seen todo, phase = .requeueMove x m seen todo → m.Honest lost := by simp) : phase.Holds scan b lost :=
  ⟨hknown ▸ h.items, hknown ▸ h.keys, hno⟩

lemma Held.idle_of_schemas (h : Sound scan s) (hheld : Held scan s.batch r (s.runs r))
    (hidle : ∀ x ∈ scan.schemas, (s.runs r).workers x = .idle) (x : String) : (s.runs r).workers x = .idle := by
  by_cases hx : x ∈ scan.schemas
  · exact hidle x hx
  · cases hw : (s.runs r).workers x with
    | idle => rfl
    | queued it => exact absurd (h.schemas x it (hheld.workers x it (by rw [hw]; rfl))) hx
    | moving m next => exact absurd (h.schemas x m.current (hheld.workers x m.current (by rw [hw]; rfl))) hx
    | working it => exact absurd (h.schemas x it (hheld.workers x it (by rw [hw]; rfl))) hx

lemma readItems_holds (s : State) (canceled lost : Bool) : Phase.Holds scan s.batch (.taken (s.readItems scan) canceled) lost := by
  refine ⟨?_, ?_, by simp⟩
  · intro p hp
    obtain ⟨x, -, hx⟩ := mem_filterMap.mp hp
    obtain ⟨it, hit, rfl⟩ := Option.map_eq_some_iff.mp hx
    exact hit
  · have hsub : List.Sublist ((s.readItems scan).map (·.1)) scan.schemas := by
      rw [State.readItems, map_filterMap]
      have hkey : (fun x => ((s.batch.items x).map fun it => (x, it)).map (·.1)) =
          Option.guard fun x => (s.batch.items x).isSome := by
        funext x
        cases hx : s.batch.items x <;> simp [Option.guard, hx]
      rw [hkey, filterMap_eq_filter]
      exact filter_sublist
    exact hsub.nodup scan.nodup

lemma queue_fits (items : List (String × Item)) (x : String) : (queue items x).Fits := by
  unfold queue
  split
  · split_ifs with hpending
    · exact .queued hpending
    · exact .idle
  · exact .idle

lemma queue_known {items : List (String × Item)} {it : Item} (h : (queue items x).known = some it) :
    (x, it) ∈ items := by
  unfold queue at h
  split at h
  · rename_i it' hlookup
    split_ifs at h
    · cases h
      obtain ⟨before, after, rfl, -⟩ := lookup_eq_some_iff.mp hlookup
      simp
    · cases h
  · cases h

lemma Phase.Holds.move {seen todo : List (String × Item)} {lost' : Bool}
    (h : Phase.Holds scan b (.requeueMove x m seen todo) lost)
    (hitems : b'.items = Function.update b.items x (some m'.current)) (hhonest : m'.Honest lost') :
    Phase.Holds scan b' (.requeueMove x m' seen todo) lost' := by
  have hkeys := h.keys
  simp only [Phase.known, map_append, map_cons, nodup_append, nodup_cons] at hkeys
  obtain ⟨-, ⟨htodo, -⟩, hseen⟩ := hkeys
  have hother : ∀ p, p ∈ seen ∨ p ∈ todo → p.1 ≠ x := by
    rintro p (hp | hp) rfl
    · exact hseen p.1 (mem_map_of_mem hp) p.1 mem_cons_self rfl
    · exact htodo (mem_map_of_mem hp)
  refine ⟨?_, by simpa [Phase.known] using h.keys, ?_⟩
  · intro p hp
    rw [hitems]
    simp only [Phase.known, mem_append, mem_cons] at hp
    have hold : p ∈ seen ∨ p ∈ todo → b.items p.1 = some p.2 := by
      intro hp
      apply h.items
      simp only [Phase.known, mem_append, mem_cons]
      tauto
    by_cases hpx : p = (x, m'.current)
    · subst hpx
      exact Function.update_self ..
    · have hp : p ∈ seen ∨ p ∈ todo := by tauto
      rw [Function.update_of_ne (hother p hp)]
      exact hold hp
  · rintro _ _ _ _ ⟨⟩
    exact hhonest

lemma Sound.requeueMove (hs : Sound scan s) {seen todo : List (String × Item)}
    (hphase : (s.runs r).phase = .requeueMove x m seen todo) (hmove : Leasing.moveStep scan s r x m c = some (s', m')) :
    Sound scan (s'.setPhase r (.requeueMove x m' seen todo)) := by
  have hlive : (s.runs r).phase ≠ .ended := by simp [hphase]
  have hm := (hs.fits r).phase x m seen todo hphase
  obtain ⟨-, -, hworkers, hdisplaced, -⟩ := moveStep_runs hmove
  refine hs.moveStep hmove (hs.named_of_phase hlive) ⟨?_, ?_⟩ ?_
  · dsimp only
    rw [hworkers]
    exact (hs.fits r).workers
  · rintro _ _ _ _ ⟨⟩
    exact moveStep_fits hm hmove
  · intro hd
    rcases hs.good r (hdisplaced ▸ hd) with hquiet | hheld
    · exact absurd hquiet.phase hlive
    · have hmain := hheld.main
      rw [hphase] at hmain
      have hcurrent : s.batch.items x = some m.current := hmain.items (x, m.current) (by simp [Phase.known])
      obtain ⟨hitems, howner, hopen, hhonest⟩ := moveStep_held hmove hheld.owner hheld.unfinished hm hcurrent
      exact .inr (hheld.setPhase (hheld.idle (by simp [hphase])) hworkers (howner.trans hheld.owner.symm)
        (hopen.trans hheld.unfinished.symm) (hmain.move hitems hhonest))

lemma Batch.finish_settled (h : b.finish r now = some b') :
    b.owner = r ∧ b'.owner = r ∧ (∀ x it, b'.items x = some it → Settled it ∧ (b.items x).isSome) := by
  obtain ⟨owned, howned, rfl⟩ := Option.map_eq_some_iff.mp h
  obtain ⟨howner, -, rfl⟩ := Batch.beatOwned_eq_some howned
  refine ⟨howner, howner, ?_⟩
  intro x it hx
  obtain ⟨old, hold, rfl⟩ := Option.map_eq_some_iff.mp hx
  refine ⟨?_, by rw [hold]; rfl⟩
  unfold Batch.ended Settled
  split_ifs with hstate
  · simp
  · exact not_or.mp hstate

lemma Sound.finish (hs : Sound scan s) (hphase : (s.runs r).phase ≠ .ended)
    (hidle : Held scan s.batch r (s.runs r) → ∀ x, (s.runs r).workers x = .idle) (h : s.batch.finish r now = some b) :
    Sound scan ({ s with batch := b }.finishRun r) := by
  obtain ⟨howner, howner', hitems⟩ := Batch.finish_settled h
  refine hs.update (fun hle => absurd (hs.named_of_phase hphase) (not_lt.mpr hle)) ⟨(hs.fits r).workers, by simp⟩
    ((hs.good r).ended rfl rfl rfl hidle) (.inr howner) (howner'.trans howner.symm) ?_ ?_
  · intro x it hx
    obtain ⟨old, hold⟩ := Option.isSome_iff_exists.mp (hitems x it hx).2
    exact hs.schemas x old hold
  · intro _ x it hx
    exact (hitems x it hx).1

lemma stepMain_sound (hs : Sound scan s) (h : stepMain scan s r c = some s') : Sound scan s' := by
  unfold stepMain at h
  split at h
  · rename_i hphase
    split at h <;> cases h
    · exact hs.nextPhase hphase fun hmain => hmain.same rfl
    · exact hs.endFrom hphase rfl rfl rfl
  · rename_i hphase
    split at h <;> cases h
    · exact hs.nextPhase hphase fun _ => readItems_holds s _ _
    · exact hs.endFrom hphase rfl rfl rfl
  · rename_i items canceled hphase
    have hfinishing : Sound scan (s.setPhase r .finishing) := hs.nextPhase hphase fun _ => Phase.holds_of_nil rfl
    split_ifs at h
    · cases h
      exact hfinishing
    · split at h <;> cases h
      · exact hfinishing
      · exact hs.endFrom hphase rfl rfl rfl
      · exact hs.nextPhase hphase fun hmain => hmain.same rfl
  · rename_i seen hphase
    cases h
    exact hs.nextPhase hphase fun hmain => hmain.same (append_nil seen).symm
  · rename_i seen x it todo hphase
    split_ifs at h with hrunning <;> cases h
    · refine hs.nextPhase hphase (fun hmain => hmain.same rfl ?_) (by simp) ?_
      · rintro _ _ _ _ ⟨⟩
        exact Move.honest_of_stage (by simp)
      · rintro _ _ _ _ ⟨⟩
        exact ⟨.inr rfl, hrunning, by simp, by simp⟩
    · exact hs.nextPhase hphase fun hmain => hmain.same (by simp [Phase.known])
  · rename_i x m seen todo hphase
    split at h
    · rename_i hstage
      cases h
      refine hs.nextPhase hphase fun hmain => hmain.same ?_
      have hmade := (hmain.honest x m seen todo rfl true hstage).1 rfl
      simp [Phase.known, Move.current, hmade]
    · cases h
      exact hs.endFrom hphase rfl rfl rfl
    · obtain ⟨⟨t, m'⟩, hmove, rfl⟩ := Option.map_eq_some_iff.mp h
      exact hs.requeueMove hphase hmove
  · rename_i items hphase
    cases h
    refine hs.setRun (hs.named_of_phase (by simp [hphase])) ⟨queue_fits items, by simp⟩ ?_
    intro hd
    rcases hs.good r hd with hquiet | hheld
    · simp [hquiet.phase] at hphase
    · have hmain := hheld.main
      rw [hphase] at hmain
      refine .inr ⟨hheld.owner, hheld.unfinished, by simp, ?_, ?_, Phase.holds_of_nil rfl⟩
      · intro x it hx
        exact hmain.items (x, it) (queue_known hx)
      · intro x m next hx
        dsimp only at hx
        unfold queue at hx
        split at hx
        · split_ifs at hx
        · cases hx
  · rename_i hphase
    have hlive : (s.runs r).phase ≠ .ended := by simp [hphase]
    split_ifs at h with hidle <;> cases h
    · exact hs.endPhase hlive rfl rfl rfl fun hheld => hheld.idle_of_schemas hs hidle
    · exact hs.setPhase hlive (by simp) fun hheld => ⟨hheld.idle_of_schemas hs hidle, Phase.holds_of_nil rfl⟩
  · rename_i hphase
    have hended : Sound scan (s.finishRun r) := hs.endFrom hphase rfl rfl rfl
    split at h <;> cases h
    · exact hended
    · cases hfinish : s.batch.finish r c.now with
      | none => exact hended
      | some b => exact hs.finish (by simp [hphase]) (fun hheld => hheld.idle (by simp [hphase])) hfinish
  · cases h

lemma Sound.claim (hs : Sound scan s) {n : Nat} (h : s.claim scan r now = some s') (hr : r < n) (hn : s.named ≤ n) :
    Sound scan { s' with named := n } := by
  obtain ⟨hopen, hbatch, -, hruns⟩ := State.claim_eq_some h
  have hrun : ∀ r', (s'.runs r').phase = (s.runs r').phase ∧ (s'.runs r').workers = (s.runs r').workers ∧
      (s'.runs r').beat = (s.runs r').beat ∧ (s'.runs r').lost = (s.runs r').lost ∧
      ((s'.runs r').displaced = false → (s.runs r').displaced = false ∧ (s.batch.owner = r' → s.batch.owner = r)) := by
    intro r'
    rw [hruns]
    split_ifs with howner
    · exact ⟨rfl, rfl, rfl, rfl, fun hd => ⟨hd, fun _ => howner⟩⟩
    · by_cases hne : r' = s.batch.owner
      · subst hne
        simp
      · rw [Function.update_of_ne hne]
        exact ⟨rfl, rfl, rfl, rfl, fun hd => ⟨hd, fun heq => absurd heq.symm hne⟩⟩
  refine ⟨?_, ?_, ?_, ?_, ?_, ?_⟩
  · rw [hbatch]
    exact hr
  · intro r' hr'
    obtain ⟨hphase, hworkers, hbeat, -, -⟩ := hrun r'
    obtain ⟨hquiet, hended⟩ := hs.unborn r' (hn.trans hr')
    exact ⟨⟨hphase.trans hquiet.phase, by rw [hworkers]; exact hquiet.workers⟩, hbeat.trans hended⟩
  · rw [hbatch]
    exact hs.schemas
  · rw [hbatch]
    exact hs.settled
  · intro r'
    obtain ⟨hphase, hworkers, -, -, -⟩ := hrun r'
    exact ⟨by rw [hworkers]; exact (hs.fits r').workers, by rw [hphase]; exact (hs.fits r').phase⟩
  · intro r' hd
    obtain ⟨hphase, hworkers, -, hlost, hdisplaced⟩ := hrun r'
    obtain ⟨hd, howner⟩ := hdisplaced hd
    rcases hs.good r' hd with hquiet | hheld
    · exact .inl ⟨hphase.trans hquiet.phase, by rw [hworkers]; exact hquiet.workers⟩
    · -- the owner before was not displaced, so it is the run that claimed
      refine .inr (hheld.frame hphase hworkers (fun h => hlost.trans h) ?_ ?_ ?_) <;> rw [hbatch]
      exact (howner hheld.owner).symm

lemma Sound.claim_named (hs : Sound scan s) (h : s.claim scan r now = some s') (hr : r < s.named) :
    Sound scan s' := by
  have hnamed : s'.named = s.named := (State.claim_eq_some h).2.2.1
  have hsound := hs.claim h hr le_rfl
  rw [← hnamed] at hsound
  exact hsound

lemma Sound.setFlags (hs : Sound scan s) (hr : r < s.named) (hphase : run.phase = (s.runs r).phase)
    (hworkers : run.workers = (s.runs r).workers) (hlost : (s.runs r).lost = true → run.lost = true)
    (hdisplaced : run.displaced = (s.runs r).displaced) : Sound scan (s.setRun r run) := by
  refine hs.setRun hr ⟨?_, ?_⟩ ((hs.good r).frame hphase hworkers hlost hdisplaced rfl rfl rfl)
  · rw [hworkers]
    exact (hs.fits r).workers
  · rw [hphase]
    exact (hs.fits r).phase

lemma stepBeat_sound (hs : Sound scan s) (h : stepBeat scan s r c = some s') : Sound scan s' := by
  have hr : (s.runs r).beat ≠ .ended → r < s.named := by
    intro hbeat
    by_contra hr
    exact hbeat (hs.unborn r (not_lt.mp hr)).2
  unfold stepBeat at h
  split at h
  · cases h
  · rename_i hbeat
    have hr := hr (by simp [hbeat])
    split_ifs at h
    · cases h
      exact hs.setFlags hr rfl rfl id rfl
    · split at h
      · split at h <;> cases h
        · rename_i t hclaim
          have hnamed : t.named = s.named := (State.claim_eq_some hclaim).2.2.1
          exact (hs.claim_named hclaim hr).setFlags (hnamed ▸ hr) rfl rfl id rfl
        · exact hs.setFlags hr rfl rfl id rfl
      · cases h
        cases hclaim : s.claim scan r c.now with
        | none => exact hs
        | some t => exact hs.claim_named hclaim hr
      · cases h
        exact hs
  · rename_i hbeat
    have hr := hr (by simp [hbeat])
    split_ifs at h <;> cases h
    · exact hs.setFlags hr rfl rfl id rfl
    · exact hs.setFlags hr rfl rfl id rfl
  · rename_i hbeat
    have hr := hr (by simp [hbeat])
    cases h
    have hlost : Sound scan (s.lose r) := hs.setFlags hr rfl rfl (fun _ => rfl) rfl
    exact hlost.setFlags hr rfl rfl id rfl

lemma Sound.name (hs : Sound scan s) : Sound scan { s with named := s.named + 1 } :=
  ⟨hs.owner.trans (Nat.lt_succ_self _), fun r hr => hs.unborn r ((Nat.le_succ _).trans hr), hs.schemas, hs.settled, hs.fits, hs.good⟩

lemma takeOver_sound (hs : Sound scan s) (c : Choice) : Sound scan (takeOver scan s c) := by
  unfold takeOver
  split
  · cases hclaim : s.claim scan s.named c.now with
    | none => exact hs.name
    | some t =>
      have hsound := hs.claim hclaim (Nat.lt_succ_self _) (Nat.le_succ _)
      obtain ⟨hopen, hbatch, -, hruns⟩ := State.claim_eq_some hclaim
      have hrun : t.runs s.named = s.runs s.named := by
        rw [hruns, if_neg hs.owner.ne, Function.update_of_ne hs.owner.ne']
      have hquiet : (t.runs s.named).Quiet := hrun ▸ (hs.unborn s.named le_rfl).1
      refine hsound.setRun (Nat.lt_succ_self _) ⟨(hsound.fits s.named).workers, by simp⟩ ?_
      intro _
      refine .inr ⟨by simp [hbatch], by simp [hbatch, hopen], fun _ => hquiet.workers, ?_, ?_, Phase.holds_of_nil rfl⟩
      · intro x it hx
        simp [hquiet.workers x, Worker.known] at hx
      · intro x m next hx
        simp [hquiet.workers x] at hx
  · cases hclaim : s.claim scan s.named c.now with
    | none => exact hs.name
    | some t => exact hs.claim hclaim (Nat.lt_succ_self _) (Nat.le_succ _)
  · exact hs.name

lemma step_sound (hs : Sound scan s) {a : Action} (h : step scan s a = some s') : Sound scan s' := by
  cases a with
  | worker r x c => exact stepWorker_sound hs h
  | main r c => exact stepMain_sound hs h
  | beat r c => exact stepBeat_sound hs h
  | takeOver c =>
    cases h
    exact takeOver_sound hs c
  | cancel =>
    cases h
    refine ⟨hs.owner, hs.unborn, hs.schemas, hs.settled, hs.fits, ?_⟩
    exact fun r => (hs.good r).frame rfl rfl id rfl rfl rfl rfl
  | stop r =>
    cases h
    exact hs.update (fun hle => ⟨⟨(hs.unborn r hle).1.phase, (hs.unborn r hle).1.workers⟩, (hs.unborn r hle).2⟩)
      ⟨(hs.fits r).workers, (hs.fits r).phase⟩ ((hs.good r).frame rfl rfl id rfl rfl rfl rfl) (.inl rfl) rfl hs.schemas hs.settled
  | crash r =>
    cases h
    exact hs.update (fun _ => ⟨⟨rfl, fun _ => rfl⟩, rfl⟩) ⟨fun _ => .idle, by simp⟩ (fun _ => .inl ⟨rfl, fun _ => rfl⟩)
      (.inl rfl) rfl hs.schemas hs.settled

lemma start_sound (now : Int) : Sound scan (start scan now) where
  owner := Nat.zero_lt_one
  unborn := by
    intro r hr
    have hne : r ≠ 0 := Nat.one_le_iff_ne_zero.mp hr
    dsimp only [start]
    rw [Function.update_of_ne hne]
    exact ⟨⟨rfl, fun _ => rfl⟩, rfl⟩
  schemas := by
    intro x it hx
    by_contra hnot
    simp [start, hnot] at hx
  settled := by simp [start]
  fits := by
    intro r
    by_cases hr : r = 0
    · subst hr
      exact ⟨fun _ => .idle, by simp [start]⟩
    · simp only [start, Function.update_of_ne hr]
      exact ⟨fun _ => .idle, by simp⟩
  good := by
    intro r _
    by_cases hr : r = 0
    · subst hr
      refine .inr ⟨rfl, rfl, fun _ _ => rfl, by simp [start, Worker.known], by simp [start], ?_, ?_, by simp [start]⟩
      · intro p hp
        obtain ⟨x, hx, rfl⟩ := mem_map.mp (show p ∈ scan.schemas.map fun x => (x, {}) from hp)
        simp [start, hx]
      · simpa [start, Phase.known, Function.comp_def] using scan.nodup
    · left
      simp only [start, Function.update_of_ne hr]
      exact ⟨rfl, fun _ => rfl⟩

lemma reachable_sound (h : Reachable scan now s) : Sound scan s :=
  h.invariant (start_sound now) fun _ _ _ hs _ _ hstep => step_sound hs hstep

end SqlMcpServer.Leasing
