import SqlMcpServer.Lib.Transition
import Mathlib.Data.List.Nodup
import Mathlib.Data.List.Perm.Subperm

/-!
# The semaphore of a lane

A counting semaphore whose size can change, with its waiters in arrival order. Each method runs
under the mutex but for the wait of `Acquire`, during which its context may end.
-/

namespace SqlMcpServer.Bus

open List

/-- The waiters are the `Acquire` calls whose channel is not closed yet. -/
structure Semaphore where
  size : Int
  used : Int
  waiters : List Nat
deriving DecidableEq, Repr

def newSemaphore (n : Int) : Semaphore := ⟨n, 0, []⟩

def grantLocked (size : Int) : Int → List Nat → List Nat × Semaphore
  | used, [] => ([], ⟨size, used, []⟩)
  | used, w :: ws =>
    if used < size then
      let rest := grantLocked size (used + 1) ws
      (w :: rest.1, rest.2)
    else ([], ⟨size, used, w :: ws⟩)

namespace Semaphore

def resize (s : Semaphore) (n : Int) : List Nat × Semaphore := grantLocked n s.used s.waiters

def free (s : Semaphore) : Bool := s.used < s.size && s.waiters.isEmpty

def tryAcquire (s : Semaphore) : Option Semaphore := if s.free then some { s with used := s.used + 1 } else none

def acquire (s : Semaphore) (id : Nat) : Bool × Semaphore :=
  if s.free then (true, { s with used := s.used + 1 }) else (false, { s with waiters := s.waiters ++ [id] })

def release (s : Semaphore) : List Nat × Semaphore := grantLocked s.size (s.used - 1) s.waiters

def expire (s : Semaphore) (id : Nat) : List Nat × Semaphore :=
  if id ∈ s.waiters then ([], { s with waiters := s.waiters.erase id }) else s.release

def Full (s : Semaphore) : Prop := s.waiters ≠ [] → s.size ≤ s.used

/-- The first waiters were granted slots, while slots were free, until none was or nobody waited. -/
structure Grants (s : Semaphore) (given : List Nat) (s' : Semaphore) : Prop where
  waiters : given ++ s'.waiters = s.waiters
  size : s'.size = s.size
  used : s'.used = s.used + given.length
  within : given ≠ [] → s'.used ≤ s'.size
  full : s'.Full

lemma grants_grantLocked (size used : Int) (ws : List Nat) :
    Grants ⟨size, used, ws⟩ (grantLocked size used ws).1 (grantLocked size used ws).2 := by
  induction ws generalizing used with
  | nil => exact ⟨rfl, rfl, by simp [grantLocked], by simp [grantLocked], by simp [grantLocked, Full]⟩
  | cons w ws ih =>
    rw [grantLocked]
    split_ifs with h
    · have hrest := ih (used + 1)
      have hused := hrest.used
      constructor
      · exact congrArg (w :: ·) hrest.waiters
      · exact hrest.size
      · simp only [length_cons] at hused ⊢
        omega
      · intro _
        by_cases hmore : (grantLocked size (used + 1) ws).1 = []
        · have hsize := hrest.size
          simp only [hmore, length_nil] at hused hsize ⊢
          omega
        · exact hrest.within hmore
      · exact hrest.full
    · exact ⟨rfl, rfl, by simp, by simp, fun _ => Int.not_lt.mp h⟩

lemma grants_resize (s : Semaphore) (n : Int) : Grants { s with size := n } (s.resize n).1 (s.resize n).2 :=
  grants_grantLocked n s.used s.waiters

lemma grants_release (s : Semaphore) : Grants { s with used := s.used - 1 } s.release.1 s.release.2 :=
  grants_grantLocked s.size (s.used - 1) s.waiters

lemma free_iff {s : Semaphore} : s.free ↔ s.used < s.size ∧ s.waiters = [] := by
  simp [free]

lemma Full.le_of_not_free {s : Semaphore} (h : s.Full) (hfree : ¬ s.free) : s.size ≤ s.used := by
  by_cases hw : s.waiters = []
  · have hused : ¬ s.used < s.size := fun h => hfree (free_iff.mpr ⟨h, hw⟩)
    omega
  · exact h hw

end Semaphore

lemma length_filter_notMem {a b : List Nat} (ha : a.Nodup) (hb : b.Nodup) (h : a ⊆ b) :
    (b.filter (· ∉ a)).length + a.length = b.length := by
  have hperm : (b.filter (· ∈ a)).Perm a := by
    apply (perm_ext_iff_of_nodup (hb.filter _) ha).mpr
    intro x
    simpa using @h x
  have hsplit := length_eq_length_filter_add (l := b) (· ∈ a)
  simp only [decide_not, ← hperm.length_eq] at hsplit ⊢
  omega

/-- A semaphore and the calls on it. `arrived` lists the calls that took a slot or waited, in
order, `given` those that were given a slot. -/
structure Calls where
  sem : Semaphore
  holders : List Nat
  blocked : List Nat
  failed : List Nat
  arrived : List Nat
  given : List Nat
deriving DecidableEq, Repr

inductive CallAction where
  | resize (n : Int)
  | tryAcquire (id : Nat)
  | acquire (id : Nat)
  /-- `Acquire` notices its grant. -/
  | wake (id : Nat)
  /-- `Acquire` notices that its context ended, granted or not. -/
  | expire (id : Nat)
  | release (id : Nat)
deriving DecidableEq, Repr

namespace Calls

def start (n : Int) : Calls := ⟨newSemaphore n, [], [], [], [], []⟩

def grant (s : Calls) (r : List Nat × Semaphore) : Calls := { s with sem := r.2, given := s.given ++ r.1 }

def take (s : Calls) (id : Nat) (sem : Semaphore) : Calls :=
  { s with sem := sem, holders := id :: s.holders, arrived := s.arrived ++ [id], given := s.given ++ [id] }

def step (s : Calls) : CallAction → Option Calls
  | .resize n => some (s.grant (s.sem.resize n))
  | .tryAcquire id =>
    if id ∈ s.arrived then none else
      match s.sem.tryAcquire with
      | some sem => some (s.take id sem)
      | none => some s
  | .acquire id =>
    if id ∈ s.arrived then none else
      match s.sem.acquire id with
      | (true, sem) => some (s.take id sem)
      | (false, sem) => some { s with sem := sem, blocked := id :: s.blocked, arrived := s.arrived ++ [id] }
  | .wake id =>
    if id ∈ s.blocked ∧ id ∉ s.sem.waiters then
      some { s with blocked := s.blocked.erase id, holders := id :: s.holders }
    else none
  | .expire id =>
    if id ∈ s.blocked then
      some { s.grant (s.sem.expire id) with blocked := s.blocked.erase id, failed := id :: s.failed }
    else none
  | .release id =>
    if id ∈ s.holders then some { s.grant s.sem.release with holders := s.holders.erase id } else none

def granted (s : Calls) : List Nat := s.blocked.filter (· ∉ s.sem.waiters)

inductive Does (s : Calls) : Calls → Prop where
  | nothing : Does s s
  | take (id : Nat) (hnew : id ∉ s.arrived) (hfree : s.sem.free) :
      Does s (s.take id { s.sem with used := s.sem.used + 1 })
  | wait (id : Nat) (hnew : id ∉ s.arrived) (hfull : ¬ s.sem.free) :
      Does s { s with sem := { s.sem with waiters := s.sem.waiters ++ [id] }, blocked := id :: s.blocked, arrived := s.arrived ++ [id] }
  | wake (id : Nat) (hin : id ∈ s.blocked) (hgranted : id ∉ s.sem.waiters) :
      Does s { s with blocked := s.blocked.erase id, holders := id :: s.holders }
  | giveUp (id : Nat) (hin : id ∈ s.blocked) (hwaits : id ∈ s.sem.waiters) :
      Does s { s with sem := { s.sem with waiters := s.sem.waiters.erase id }, blocked := s.blocked.erase id, failed := id :: s.failed }
  | resize (n : Int) {g : List Nat} {sem : Semaphore} (h : { s.sem with size := n }.Grants g sem) : Does s (s.grant (g, sem))
  | handBack (id : Nat) (hin : id ∈ s.blocked) (hgranted : id ∉ s.sem.waiters) {g : List Nat} {sem : Semaphore}
      (h : { s.sem with used := s.sem.used - 1 }.Grants g sem) :
      Does s { s.grant (g, sem) with blocked := s.blocked.erase id, failed := id :: s.failed }
  | release (id : Nat) (hin : id ∈ s.holders) {g : List Nat} {sem : Semaphore}
      (h : { s.sem with used := s.sem.used - 1 }.Grants g sem) :
      Does s { s.grant (g, sem) with holders := s.holders.erase id }

lemma does_step {s s' : Calls} {a : CallAction} (h : s.step a = some s') : s.Does s' := by
  cases a with
  | resize n =>
    cases h
    exact .resize n (s.sem.grants_resize n)
  | tryAcquire id =>
    rw [step, Semaphore.tryAcquire] at h
    by_cases hnew : id ∈ s.arrived
    · simp [hnew] at h
    by_cases hfree : s.sem.free = true
    · simp only [hnew, hfree, if_false, if_true, Option.some.injEq] at h
      exact h ▸ .take id hnew hfree
    · simp only [hnew, hfree, if_false, Option.some.injEq, Bool.false_eq_true] at h
      exact h ▸ .nothing
  | acquire id =>
    rw [step, Semaphore.acquire] at h
    by_cases hnew : id ∈ s.arrived
    · simp [hnew] at h
    by_cases hfree : s.sem.free = true
    · simp only [hnew, hfree, if_false, if_true, Option.some.injEq] at h
      exact h ▸ .take id hnew hfree
    · simp only [hnew, hfree, if_false, Option.some.injEq, Bool.false_eq_true] at h
      exact h ▸ .wait id hnew hfree
  | wake id =>
    rw [step, Option.ite_none_right_eq_some] at h
    obtain ⟨⟨hin, hgranted⟩, h⟩ := h
    exact Option.some.inj h ▸ .wake id hin hgranted
  | expire id =>
    rw [step, Option.ite_none_right_eq_some, Semaphore.expire] at h
    obtain ⟨hin, h⟩ := h
    by_cases hwaits : id ∈ s.sem.waiters
    · rw [if_pos hwaits] at h
      have hdoes := Does.giveUp id hin hwaits
      simpa [← Option.some.inj h, grant] using hdoes
    · rw [if_neg hwaits] at h
      exact Option.some.inj h ▸ .handBack id hin hwaits s.sem.grants_release
  | release id =>
    rw [step, Option.ite_none_right_eq_some] at h
    obtain ⟨hin, h⟩ := h
    exact Option.some.inj h ▸ .release id hin s.sem.grants_release

def placed (s : Calls) : List Nat := s.holders ++ (s.blocked ++ s.failed)

/-- Every call is in one place; the slots in use are those of the holders and of the blocked calls
that do not wait. -/
structure Sound (s : Calls) : Prop where
  distinct : s.arrived.Nodup
  order : (s.given ++ s.sem.waiters).Sublist s.arrived
  places : s.placed.Nodup ∧ s.placed ⊆ s.arrived
  waiting : s.sem.waiters ⊆ s.blocked
  used : s.sem.used + s.sem.waiters.length = s.holders.length + s.blocked.length
  full : s.sem.Full

lemma sound_start (n : Int) : (start n).Sound :=
  ⟨nodup_nil, List.Sublist.refl _, ⟨nodup_nil, List.Subset.refl _⟩, List.Subset.refl _, rfl, fun h => absurd rfl h⟩

lemma places_of_subperm {l l' arrived : List Nat} (h : l.Nodup ∧ l ⊆ arrived) (hl : l'.Subperm l) :
    l'.Nodup ∧ l' ⊆ arrived := by
  constructor
  · obtain ⟨l₁, hperm, hsub⟩ := hl
    exact hperm.nodup_iff.mp (h.1.sublist hsub)
  · exact fun x hx => h.2 (hl.subset hx)

lemma places_new {id : Nat} {l l' arrived : List Nat} (h : l.Nodup ∧ l ⊆ arrived) (hnew : id ∉ arrived) (hl : l'.Perm (id :: l)) :
    l'.Nodup ∧ l' ⊆ arrived ++ [id] := by
  constructor
  · apply hl.nodup_iff.mpr
    exact nodup_cons.mpr ⟨fun hin => hnew (h.2 hin), h.1⟩
  · intro x hx
    rcases mem_cons.mp (hl.mem_iff.mp hx) with rfl | hx
    · simp
    · exact mem_append_left _ (h.2 hx)

lemma placed_unblocked {s : Calls} {id : Nat} (hin : id ∈ s.blocked) :
    s.placed.Perm (id :: (s.holders ++ (s.blocked.erase id ++ s.failed))) := by
  calc s.placed
      _ |>.Perm (s.holders ++ (id :: s.blocked.erase id ++ s.failed)) :=
        ((perm_cons_erase hin).append_right _).append_left _
      _ |>.Perm _ := perm_middle

lemma placed_failed {s : Calls} {id : Nat} (hin : id ∈ s.blocked) :
    (s.holders ++ (s.blocked.erase id ++ id :: s.failed)).Perm s.placed := by
  apply List.Perm.trans _ (placed_unblocked hin).symm
  rw [← append_assoc, ← append_assoc]
  exact perm_middle

namespace Sound
variable {s s' : Calls}

lemma nodup_waiters (h : s.Sound) : s.sem.waiters.Nodup :=
  (h.order.nodup h.distinct).of_append_right

lemma given_order (h : s.Sound) {g : List Nat} {sem : Semaphore} (hg : g ++ sem.waiters = s.sem.waiters) :
    (s.given ++ g ++ sem.waiters).Sublist s.arrived := by
  rw [append_assoc, hg]
  exact h.order

lemma waiters_subset {g : List Nat} {sem : Semaphore} (hg : g ++ sem.waiters = s.sem.waiters) : sem.waiters ⊆ s.sem.waiters := by
  rw [← hg]
  exact subset_append_right _ _

lemma waiting_unblocked (h : s.Sound) {id : Nat} (hgranted : id ∉ s.sem.waiters) {ws : List Nat} (hws : ws ⊆ s.sem.waiters) :
    ws ⊆ s.blocked.erase id := by
  intro x hx
  apply (mem_erase_of_ne ?_).mpr (h.waiting (hws hx))
  rintro rfl
  exact hgranted (hws hx)

lemma does (h : s.Sound) (hdoes : s.Does s') : s'.Sound := by
  cases hdoes with
  | nothing => exact h
  | take id hnew hfree =>
    obtain ⟨hused, hnone⟩ := Semaphore.free_iff.mp hfree
    have hcount := h.used
    have horder := h.order
    rw [hnone] at hcount horder
    constructor
    · exact nodup_append.mpr ⟨h.distinct, nodup_singleton id, by grind⟩
    · simpa [take, hnone] using horder
    · exact places_new h.places hnew (List.Perm.refl _)
    · simp [take, hnone]
    · simp only [take, hnone, length_cons, length_nil] at hcount ⊢
      omega
    · exact fun hwaits => absurd hnone hwaits
  | wait id hnew hfull =>
    have hcount := h.used
    constructor
    · exact nodup_append.mpr ⟨h.distinct, nodup_singleton id, by grind⟩
    · rw [← append_assoc]
      exact h.order.append_right [id]
    · exact places_new h.places hnew perm_middle
    · intro x hx
      have := @h.waiting x
      grind
    · simp only [length_append, length_cons, length_nil]
      omega
    · exact fun _ => h.full.le_of_not_free hfull
  | wake id hin hgranted =>
    have hcount := h.used
    have hpos := length_pos_of_mem hin
    constructor
    · exact h.distinct
    · exact h.order
    · exact places_of_subperm h.places (placed_unblocked hin).symm.subperm
    · exact h.waiting_unblocked hgranted (List.Subset.refl _)
    · simp only [length_cons, length_erase_of_mem hin]
      omega
    · exact h.full
  | giveUp id hin hwaits =>
    have hcount := h.used
    have hpos := length_pos_of_mem hin
    have hpos' := length_pos_of_mem hwaits
    constructor
    · exact h.distinct
    · exact ((erase_sublist).append_left _).trans h.order
    · exact places_of_subperm h.places (placed_failed hin).subperm
    · intro x hx
      obtain ⟨hne, hx⟩ := h.nodup_waiters.mem_erase_iff.mp hx
      exact (mem_erase_of_ne hne).mpr (h.waiting hx)
    · simp only [length_erase_of_mem hin, length_erase_of_mem hwaits]
      omega
    · exact fun _ => h.full (ne_nil_of_mem hwaits)
  | resize n hg =>
    have hcount := h.used
    have hlen := congrArg List.length hg.waiters
    have hused := hg.used
    constructor
    · exact h.distinct
    · exact h.given_order hg.waiters
    · exact h.places
    · exact fun x hx => h.waiting (waiters_subset hg.waiters hx)
    · simp only [grant, length_append] at hlen hused ⊢
      omega
    · exact hg.full
  | handBack id hin hgranted hg =>
    have hcount := h.used
    have hpos := length_pos_of_mem hin
    have hlen := congrArg List.length hg.waiters
    have hused := hg.used
    constructor
    · exact h.distinct
    · exact h.given_order hg.waiters
    · exact places_of_subperm h.places (placed_failed hin).subperm
    · exact h.waiting_unblocked hgranted (waiters_subset hg.waiters)
    · simp only [grant, length_append, length_erase_of_mem hin] at hlen hused ⊢
      omega
    · exact hg.full
  | release id hin hg =>
    have hcount := h.used
    have hpos := length_pos_of_mem hin
    have hlen := congrArg List.length hg.waiters
    have hused := hg.used
    constructor
    · exact h.distinct
    · exact h.given_order hg.waiters
    · exact places_of_subperm h.places (List.Sublist.subperm (erase_sublist.append_right _))
    · exact fun x hx => h.waiting (waiters_subset hg.waiters hx)
    · simp only [grant, length_append, length_erase_of_mem hin] at hlen hused ⊢
      omega
    · exact hg.full

lemma length_granted (h : s.Sound) : s.granted.length + s.sem.waiters.length = s.blocked.length :=
  length_filter_notMem h.nodup_waiters (h.places.1.of_append_right).of_append_left h.waiting

end Sound

structure Conserved (s : Calls) : Prop where
  used : s.sem.used = s.holders.length + s.granted.length
  /-- Who was given a slot came before who was given one later and before who still waits. -/
  arrivalOrder : s.arrived.Nodup ∧ (s.given ++ s.sem.waiters).Sublist s.arrived
  noneFree : s.sem.waiters ≠ [] → s.sem.used ≥ s.sem.size
  failed : ∀ id ∈ s.failed, id ∉ s.holders ∧ id ∉ s.granted ∧ id ∉ s.sem.waiters

lemma Sound.conserved {s : Calls} (h : s.Sound) : s.Conserved where
  used := by
    have hcount := h.used
    have hgranted := h.length_granted
    omega
  arrivalOrder := ⟨h.distinct, h.order⟩
  noneFree := h.full
  failed := by
    intro id hid
    have hnodup := h.places.1
    have hblocked : id ∉ s.blocked := by
      intro hin
      exact (nodup_append.mp hnodup.of_append_right).2.2 id hin id hid rfl
    refine ⟨?_, ?_, fun hw => hblocked (h.waiting hw)⟩
    · intro hin
      exact (nodup_append.mp hnodup).2.2 id hin id (mem_append_right _ hid) rfl
    · exact fun hin => hblocked (mem_of_mem_filter hin)

/-- A step that gives slots gives each while one is free: after the last of them no more are used
than there are. -/
lemma Does.within {s s' : Calls} (h : s.Does s') :
    ∃ g, s'.given = s.given ++ g ∧ (g ≠ [] → s'.sem.used ≤ s'.sem.size) := by
  cases h with
  | nothing => exact ⟨[], by simp⟩
  | take id hnew hfree =>
    obtain ⟨hused, -⟩ := Semaphore.free_iff.mp hfree
    exact ⟨[id], rfl, fun _ => hused⟩
  | wait id => exact ⟨[], by simp⟩
  | wake id => exact ⟨[], by simp⟩
  | giveUp id => exact ⟨[], by simp⟩
  | resize n hg => exact ⟨_, rfl, hg.within⟩
  | handBack id _ _ hg => exact ⟨_, rfl, hg.within⟩
  | release id _ hg => exact ⟨_, rfl, hg.within⟩

/-- Over every interleaving of calls on a new semaphore: the slots in use are those of the holders
and those granted to calls that have not returned, slots are given in arrival order, nobody waits
while one is free, a call that failed holds none, and no slot is given at or above the size. -/
theorem semaphore_conserved (n : Int) (s : Calls) (h : Transition.Reachable step (fun _ => True) (start n) s) :
    s.Conserved ∧ ∀ a s', s.step a = some s' →
      ∃ g, s'.given = s.given ++ g ∧ (g ≠ [] → s'.sem.used ≤ s'.sem.size) := by
  have hsound : s.Sound := h.invariant (sound_start n) fun _ _ _ hs _ _ hstep => hs.does (does_step hstep)
  exact ⟨hsound.conserved, fun a s' hstep => (does_step hstep).within⟩

/-- One slot: the second call waits, is granted as the first releases, and its context ends before
it notices. -/
def handedBack : List CallAction := [.acquire 1, .acquire 2, .acquire 3, .release 1, .expire 2]

theorem semaphore_conserved_handedBack :
    ∃ s, Transition.run step (start 1) handedBack = some s ∧ s.granted = [3] ∧ s.failed = [2] ∧ s.Conserved := by
  have hrun : Transition.run step (start 1) handedBack = some ⟨⟨1, 1, []⟩, [], [3], [2], [1, 2, 3], [1, 2, 3]⟩ := by decide
  exact ⟨_, hrun, by decide, rfl, (semaphore_conserved 1 _ (Transition.reachable_of_run (.start trivial) hrun)).1⟩

end Calls
end SqlMcpServer.Bus
