import SqlMcpServer.Bus.Semaphore
import Mathlib.Algebra.BigOperators.Group.List.Basic
import Mathlib.Algebra.Order.Ring.Int

/-!
# The lanes of a bus

The works of the lanes of one bus, each a thread between two operations on the lane's counters and
on the semaphores: the lane's slots, the auxiliary slots, and the IO slots all lanes draw on.
-/

namespace SqlMcpServer.Bus

open List Option

inductive LaneName where
  | serve
  | admin
  | scan
  | background
deriving DecidableEq, Repr

structure Limits where
  maxConcurrent : Int
  maxQueue : Int
deriving DecidableEq, Repr

def defaultLimits : LaneName → Limits
  | .serve => ⟨256, 0⟩
  | .admin => ⟨4, 16⟩
  | .scan => ⟨2, 8⟩
  | .background => ⟨2, 64⟩

def laneLimits (name : LaneName) (limits : LaneName → Option Limits) : Limits :=
  match limits name with
  | some l => if l.maxConcurrent > 0 then l else defaultLimits name
  | none => defaultLimits name

def defaultIo : Int := 16

def ioSize (io : Int) : Int := if io ≤ 0 then defaultIo else io

def auxSize (io : Int) : Int := max 1 (ioSize io / 2)

/-- A semaphore, with the works it gave a slot to and those that gave one back. -/
structure Slots where
  sem : Semaphore
  given : List Nat
  returned : List Nat
deriving DecidableEq, Repr

inductive Status where
  | before
  /-- In `Acquire`: waiting, or granted and not yet back. -/
  | wanted
  | held
  | after
deriving DecidableEq, Repr

namespace Slots

def new (n : Int) : Slots := ⟨((newSemaphore 0).resize n).2, [], []⟩

def tryAcquire (s : Slots) (id : Nat) : Option Slots := s.sem.tryAcquire.map fun sem => { s with sem := sem, given := s.given ++ [id] }

def acquire (s : Slots) (id : Nat) : Bool × Slots :=
  match s.sem.acquire id with
  | (true, sem) => (true, { s with sem := sem, given := s.given ++ [id] })
  | (false, sem) => (false, { s with sem := sem })

def release (s : Slots) (id : Nat) : Slots := ⟨s.sem.release.2, s.given ++ s.sem.release.1, id :: s.returned⟩

def expire (s : Slots) (id : Nat) : Slots :=
  if id ∈ s.sem.waiters then { s with sem := (s.sem.expire id).2 } else s.release id

/-- Every work is given a slot once and gives it back once, and the slots in use are those given
and not given back. -/
structure Sound (s : Slots) : Prop where
  once : (s.given ++ s.sem.waiters).Nodup
  returned : s.returned.Nodup ∧ s.returned ⊆ s.given
  used : s.sem.used + s.returned.length = s.given.length
  within : s.sem.used ≤ s.sem.size

def At (s : Slots) (id : Nat) : Status → Prop
  | .before => id ∉ s.given ∧ id ∉ s.sem.waiters
  | .wanted => id ∉ s.returned ∧ (id ∈ s.given ∨ id ∈ s.sem.waiters)
  | .held => id ∈ s.given ∧ id ∉ s.returned
  | .after => id ∉ s.sem.waiters ∧ (id ∈ s.given → id ∈ s.returned)

/-- An operation of a work, which gets it to a status and leaves the others where they are. -/
structure Moves (s : Slots) (id : Nat) (goal : Status) (s' : Slots) : Prop where
  sound : s'.Sound
  size : s'.sem.size = s.sem.size
  here : s'.At id goal
  others : ∀ j, j ≠ id → ∀ st, s.At j st → s'.At j st

variable {s s' : Slots} {id : Nat}

lemma Sound.take (h : s.Sound) (hbefore : s.At id .before) (hfree : s.sem.free) :
    s.Moves id .held { s with sem := { s.sem with used := s.sem.used + 1 }, given := s.given ++ [id] } := by
  obtain ⟨hused, hnone⟩ := Semaphore.free_iff.mp hfree
  have honce := h.once
  have hcount := h.used
  rw [hnone, append_nil] at honce
  constructor
  · constructor
    · rw [hnone, append_nil]
      exact nodup_append.mpr ⟨honce, nodup_singleton id, by grind [At]⟩
    · exact ⟨h.returned.1, fun x hx => mem_append_left _ (h.returned.2 hx)⟩
    · simp only [length_append, length_singleton]
      omega
    · simp only
      omega
  · rfl
  · exact ⟨by simp, fun hin => hbefore.1 (h.returned.2 hin)⟩
  · intro j hj st hst
    cases st <;> simp_all [At]

lemma Sound.wait (h : s.Sound) (hbefore : s.At id .before) :
    s.Moves id .wanted { s with sem := { s.sem with waiters := s.sem.waiters ++ [id] } } := by
  constructor
  · constructor
    · rw [← append_assoc]
      exact nodup_append.mpr ⟨h.once, nodup_singleton id, by grind [At]⟩
    · exact h.returned
    · exact h.used
    · exact h.within
  · rfl
  · exact ⟨fun hin => hbefore.1 (h.returned.2 hin), by simp⟩
  · intro j hj st hst
    cases st <;> simp_all [At]

lemma Sound.tryAcquire (h : s.Sound) (hbefore : s.At id .before) (htry : s.tryAcquire id = some s') : s.Moves id .held s' := by
  obtain ⟨sem, hsem, rfl⟩ := map_eq_some_iff.mp htry
  rw [Semaphore.tryAcquire, ite_none_right_eq_some] at hsem
  obtain ⟨hfree, hsem⟩ := hsem
  cases hsem
  exact h.take hbefore hfree

lemma Sound.acquire (h : s.Sound) (hbefore : s.At id .before) :
    s.Moves id (if (s.acquire id).1 then .held else .wanted) (s.acquire id).2 := by
  rw [Slots.acquire, Semaphore.acquire]
  by_cases hfree : s.sem.free = true
  · rw [if_pos hfree]
    exact h.take hbefore hfree
  · rw [if_neg hfree]
    exact h.wait hbefore

lemma Sound.release (h : s.Sound) (hheld : s.At id .held) : s.Moves id .after (s.release id) := by
  have hg := s.sem.grants_release
  have hwaiters := hg.waiters
  have honce := h.once
  have hcount := h.used
  have hlen := hg.used
  have hwithin := hg.within
  have hbound := h.within
  have hsize := hg.size
  simp only [Slots.release]
  generalize s.sem.release = r at *
  simp only at hwaiters hlen hsize
  rw [← hwaiters, ← append_assoc] at honce
  constructor
  · constructor
    · exact honce
    · refine ⟨nodup_cons.mpr ⟨hheld.2, h.returned.1⟩, ?_⟩
      intro x hx
      rcases mem_cons.mp hx with rfl | hx
      · exact mem_append_left _ hheld.1
      · exact mem_append_left _ (h.returned.2 hx)
    · simp only [length_cons, length_append]
      omega
    · by_cases hnone : r.1 = []
      · simp only [hnone, length_nil] at hlen
        simp only
        omega
      · exact hwithin hnone
  · exact hsize
  · refine ⟨?_, fun _ => mem_cons_self⟩
    intro hin
    exact (nodup_append.mp honce).2.2 id (mem_append_left _ hheld.1) id hin rfl
  · intro j hj st hst
    cases st <;> simp only [At, ← hwaiters, mem_append, mem_cons, not_or] at hst ⊢ <;> grind

lemma Sound.expire (h : s.Sound) (hwanted : s.At id .wanted) : s.Moves id .after (s.expire id) := by
  by_cases hin : id ∈ s.sem.waiters
  · rw [Slots.expire, if_pos hin, Semaphore.expire, if_pos hin]
    have honce := h.once
    have hnodup : s.sem.waiters.Nodup := honce.of_append_right
    constructor
    · exact ⟨honce.sublist (erase_sublist.append_left _), h.returned, h.used, h.within⟩
    · rfl
    · refine ⟨fun h => (hnodup.mem_erase_iff.mp h).1 rfl, fun hgiven => ?_⟩
      exact absurd rfl ((nodup_append.mp honce).2.2 id hgiven id hin)
    · intro j hj st hst
      cases st <;> simp only [At, mem_erase_of_ne hj] at hst ⊢ <;> exact hst
  · rw [Slots.expire, if_neg hin]
    exact h.release ⟨hwanted.2.resolve_right hin, hwanted.1⟩

lemma At.wake (hwanted : s.At id .wanted) (hgranted : id ∉ s.sem.waiters) : s.At id .held :=
  ⟨hwanted.2.resolve_right hgranted, hwanted.1⟩

lemma Sound.length_le (h : s.Sound) {ids : List Nat} (hids : ids.Nodup) (hheld : ∀ id ∈ ids, s.At id .held) : ids.length ≤ s.sem.used := by
  have hsub : ids ⊆ s.given.filter (· ∉ s.returned) := by
    intro id hid
    simpa [At] using hheld id hid
  have hlen := (subperm_of_subset hids hsub).length_le
  have hcount := length_filter_notMem h.returned.1 h.once.of_append_left h.returned.2
  have hused := h.used
  omega

end Slots

inductive Sem where
  | slots
  | aux
  | io
deriving DecidableEq, Repr

inductive Counter where
  | queued
  | ioWait
  | inflight
deriving DecidableEq, Repr

inductive PC where
  /-- `TryEnter` -/
  | enter
  | entering
  /-- `leave`; where `TryEnter` admitted the work, once its release is called -/
  | leave
  /-- `Acquire`, or `RunWaiting` unbounded -/
  | acquire (bounded : Bool)
  | enqueue (bounded : Bool)
  | reject
  | askSlot
  | waitSlot
  | unqueue
  | gotSlot
  | leaveQueue
  | direct
  /-- `admit`; `aux` as passed to `io` -/
  | admitting
  | waitAux
  | askIo
  | waitIo (aux : Bool)
  | gotIo (aux : Bool)
  | stopWaiting (aux : Bool)
  /-- the work runs, until its release is called -/
  | running (aux : Bool)
  | releaseAux
  | dropAux
  | dropWait
  | dropSlot
  /-- `Queue` -/
  | queue
  | readIOWait (q : Int)
  | readInflight (n : Int)
  | issue
  /-- the ticket was returned, and its `Acquire` not called yet -/
  | ticketed
  | askTicketSlot
  | waitTicketSlot
  | gotTicketSlot
  | giveUp
  | leaveTicket
  | ended
deriving DecidableEq, Repr

inductive Instr where
  /-- Adds to a counter of the lane, or loads it with 0; what follows depends on its value then. -/
  | add (c : Counter) (n : Int) (next : Int → PC)
  | tryAcquire (yes no : PC)
  | acquire (s : Sem) (got waiting : PC)
  | await (s : Sem) (got expired : PC)
  | release (s : Sem) (next : PC)
  | issue
  | ifLeft (left stays : PC)
  /-- The ticket's `leave`, up to its counting down. -/
  | leave (won lost : PC)
  | stop

def PC.code (lane : LaneName) (limits : Limits) : PC → Instr
  | .enter => .tryAcquire .entering .ended
  | .entering => .add .inflight 1 fun _ => .leave
  | .leave => .add .inflight (-1) fun _ => .dropSlot
  | .acquire bounded => .tryAcquire .direct (.enqueue bounded)
  | .enqueue bounded => .add .queued 1 fun q => if bounded = true ∧ q > max 0 limits.maxQueue then .reject else .askSlot
  | .reject => .add .queued (-1) fun _ => .ended
  | .askSlot => .acquire .slots .gotSlot .waitSlot
  | .waitSlot => .await .slots .gotSlot .unqueue
  | .unqueue => .add .queued (-1) fun _ => .ended
  | .gotSlot => .add .ioWait 1 fun _ => .leaveQueue
  | .leaveQueue => .add .queued (-1) fun _ => .admitting
  | .direct => .add .ioWait 1 fun _ => .admitting
  | .admitting => if lane = .serve then .acquire .io (.gotIo false) (.waitIo false) else .acquire .aux .askIo .waitAux
  | .waitAux => .await .aux .askIo .dropWait
  | .askIo => .acquire .io (.gotIo true) (.waitIo true)
  | .waitIo aux => .await .io (.gotIo aux) (if aux then .dropAux else .dropWait)
  | .gotIo aux => .add .inflight 1 fun _ => .stopWaiting aux
  | .stopWaiting aux => .add .ioWait (-1) fun _ => .running aux
  | .running aux => .release .io (if aux then .releaseAux else .leave)
  | .releaseAux => .release .aux .leave
  | .dropAux => .release .aux .dropWait
  | .dropWait => .add .ioWait (-1) fun _ => .dropSlot
  | .dropSlot => .release .slots .ended
  | .queue => .add .queued 1 .readIOWait
  | .readIOWait q => .add .ioWait 0 fun n => .readInflight (q + n)
  | .readInflight n => .add .inflight 0 fun m =>
    if n + m > max 1 limits.maxConcurrent + max 0 limits.maxQueue then .reject else .issue
  | .issue => .issue
  | .ticketed => .ifLeft .ended .askTicketSlot
  | .askTicketSlot => .acquire .slots .gotTicketSlot .waitTicketSlot
  | .waitTicketSlot => .await .slots .gotTicketSlot .giveUp
  | .gotTicketSlot => .add .ioWait 1 fun _ => .leaveTicket
  | .giveUp => .leave .unqueue .ended
  | .leaveTicket => .leave .leaveQueue .dropWait
  | .ended => .stop

/-- A work, with its ticket's `left` where it has one. `cancelling` is set while `Cancel`, which
took the ticket's place, has not counted down yet; `departed` counts the times it was counted down. -/
structure Work where
  lane : LaneName
  pc : PC
  ticket : Option Bool := none
  cancelling : Bool := false
  canceled : Bool := false
  departed : Int := 0
deriving DecidableEq, Repr

inductive SemName where
  | lane (l : LaneName)
  | aux
  | io
deriving DecidableEq, Repr

def Sem.name (lane : LaneName) : Sem → SemName
  | .slots => .lane lane
  | .aux => .aux
  | .io => .io

structure Lanes where
  sem : SemName → Slots
  count : LaneName → Counter → Int
  works : List Work
  closed : Bool

inductive LaneAction where
  /-- A call of `TryEnter`, `Acquire`, `RunWaiting` or `Queue`. -/
  | call (lane : LaneName) (entry : PC)
  /-- The next operation of a work, or of its caller: the release or the ticket's `Acquire`. -/
  | next (i : Nat)
  /-- The context of a work that waits ended. -/
  | expire (i : Nat)
  | cancel (i : Nat)
  | uncount (i : Nat)
  | close

def PC.entry : PC → Bool
  | .enter | .acquire _ | .queue => true
  | _ => false

namespace Lanes

section step
variable (io : Int) (limits : LaneName → Option Limits)

def size : SemName → Int
  | .lane l => max 1 (laneLimits l limits).maxConcurrent
  | .aux => auxSize io
  | .io => ioSize io

def start : Lanes := ⟨fun n => .new (size io limits n), fun _ _ => 0, [], false⟩

def setSem (b : Lanes) (n : SemName) (s : Slots) : Lanes := { b with sem := fun m => if m = n then s else b.sem m }

def add (b : Lanes) (lane : LaneName) (c : Counter) (n : Int) : Lanes :=
  { b with count := fun l d => if l = lane ∧ d = c then b.count l d + n else b.count l d }

def setWork (b : Lanes) (i : Nat) (w : Work) : Lanes := { b with works := b.works.set i w }

def exec (b : Lanes) (i : Nat) (w : Work) : Option Lanes :=
  match w.pc.code w.lane (laneLimits w.lane limits) with
  | .add c n next => some ((b.add w.lane c n).setWork i { w with
      pc := next (b.count w.lane c + n)
      departed := if c = .queued ∧ n < 0 then w.departed + 1 else w.departed })
  | .tryAcquire yes no =>
    match (b.sem (.lane w.lane)).tryAcquire i with
    | some s => some ((b.setSem (.lane w.lane) s).setWork i { w with pc := yes })
    | none => some (b.setWork i { w with pc := no })
  | .acquire s got waiting =>
    let r := (b.sem (s.name w.lane)).acquire i
    some ((b.setSem (s.name w.lane) r.2).setWork i { w with pc := if r.1 then got else waiting })
  | .await s got _ =>
    if i ∈ (b.sem (s.name w.lane)).sem.waiters then none else some (b.setWork i { w with pc := got })
  | .release s next => some ((b.setSem (s.name w.lane) ((b.sem (s.name w.lane)).release i)).setWork i { w with pc := next })
  | .issue => some (b.setWork i { w with pc := .ticketed, ticket := some false })
  | .ifLeft left stays => some (b.setWork i { w with pc := if w.ticket = some true then left else stays })
  | .leave won lost =>
    if w.ticket = some false then some (b.setWork i { w with pc := won, ticket := some true })
    else some (b.setWork i { w with pc := lost })
  | .stop => none

def step (b : Lanes) : LaneAction → Option Lanes
  | .call lane entry =>
    if entry.entry then if b.closed then some b else some { b with works := b.works ++ [{ lane := lane, pc := entry }] } else none
  | .next i => b.works[i]?.bind (b.exec limits i)
  | .expire i => do
    let w ← b.works[i]?
    match w.pc.code w.lane (laneLimits w.lane limits) with
    | .await s _ expired =>
      some ((b.setSem (s.name w.lane) ((b.sem (s.name w.lane)).expire i)).setWork i { w with pc := expired })
    | _ => none
  | .cancel i => do
    let w ← b.works[i]?
    if w.ticket = some false then some (b.setWork i { w with ticket := some true, cancelling := true, canceled := true }) else some b
  | .uncount i => do
    let w ← b.works[i]?
    if w.cancelling then
      some ((b.add w.lane .queued (-1)).setWork i { w with cancelling := false, departed := w.departed + 1 })
    else none
  | .close => some { b with closed := true }

end step

end Lanes

/-- What a work has to do with each semaphore, and what it counts for, before an operation. -/
structure Row where
  slots : Status
  aux : Status
  io : Status
  queued : Int
  ioWait : Int
  inflight : Int

@[simp] def PC.row : PC → Row
  | .enter | .acquire _ | .enqueue _ | .queue | .ticketed | .askTicketSlot => ⟨.before, .before, .before, 0, 0, 0⟩
  | .reject | .askSlot | .readIOWait _ | .readInflight _ | .issue => ⟨.before, .before, .before, 1, 0, 0⟩
  | .waitTicketSlot => ⟨.wanted, .before, .before, 0, 0, 0⟩
  | .waitSlot => ⟨.wanted, .before, .before, 1, 0, 0⟩
  | .entering | .direct | .gotTicketSlot => ⟨.held, .before, .before, 0, 0, 0⟩
  | .gotSlot => ⟨.held, .before, .before, 1, 0, 0⟩
  | .leaveQueue => ⟨.held, .before, .before, 1, 1, 0⟩
  | .leaveTicket | .admitting => ⟨.held, .before, .before, 0, 1, 0⟩
  | .waitAux => ⟨.held, .wanted, .before, 0, 1, 0⟩
  | .askIo => ⟨.held, .held, .before, 0, 1, 0⟩
  | .waitIo aux => ⟨.held, if aux then .held else .before, .wanted, 0, 1, 0⟩
  | .gotIo aux => ⟨.held, if aux then .held else .before, .held, 0, 1, 0⟩
  | .stopWaiting aux => ⟨.held, if aux then .held else .before, .held, 0, 1, 1⟩
  | .running aux => ⟨.held, if aux then .held else .before, .held, 0, 0, 1⟩
  | .releaseAux => ⟨.held, .held, .after, 0, 0, 1⟩
  | .leave => ⟨.held, .after, .after, 0, 0, 1⟩
  | .dropAux => ⟨.held, .held, .after, 0, 1, 0⟩
  | .dropWait => ⟨.held, .after, .after, 0, 1, 0⟩
  | .dropSlot => ⟨.held, .after, .after, 0, 0, 0⟩
  | .unqueue => ⟨.after, .after, .after, 1, 0, 0⟩
  | .giveUp | .ended => ⟨.after, .after, .after, 0, 0, 0⟩

@[simp] def PC.status (pc : PC) : Sem → Status
  | .slots => pc.row.slots
  | .aux => pc.row.aux
  | .io => pc.row.io

@[simp] def PC.weight (pc : PC) : Counter → Int
  | .queued => pc.row.queued
  | .ioWait => pc.row.ioWait
  | .inflight => pc.row.inflight

def Status.Leads (a b : Status) : Prop := a = b ∨ a = .before ∧ b = .after

instance (a b : Status) : Decidable (a.Leads b) := inferInstanceAs (Decidable (_ ∨ _))

lemma Slots.At.leads {s : Slots} {id : Nat} {a b : Status} (h : s.At id a) (hab : a.Leads b) : s.At id b := by
  rcases hab with rfl | ⟨rfl, rfl⟩
  · exact h
  · exact ⟨h.2, fun hin => absurd hin h.1⟩

def PC.Goes (pc next : PC) (delta : Counter → Int) : Prop :=
  (∀ s, (pc.status s).Leads (next.status s)) ∧ ∀ c, next.weight c = pc.weight c + delta c

def PC.GoesBy (pc next : PC) (s : Sem) (a b : Status) : Prop :=
  pc.status s = a ∧ next.status s = b ∧ (∀ r, r ≠ s → (pc.status r).Leads (next.status r)) ∧ ∀ c, next.weight c = pc.weight c

def Instr.Fits (pc : PC) : Instr → Prop
  | .add c n next => ∀ v, pc.Goes (next v) fun d => if d = c then n else 0
  | .tryAcquire yes no => pc.GoesBy yes .slots .before .held ∧ pc.Goes no fun _ => 0
  | .acquire s got waiting => pc.GoesBy got s .before .held ∧ pc.GoesBy waiting s .before .wanted
  | .await s got expired => pc.GoesBy got s .wanted .held ∧ pc.GoesBy expired s .wanted .after
  | .release s next => pc.GoesBy next s .held .after
  | .issue => pc.Goes .ticketed fun d => if d = .queued then -1 else 0
  | .ifLeft left stays => (pc.Goes left fun _ => 0) ∧ pc.Goes stays fun _ => 0
  | .leave won lost => (pc.Goes won fun d => if d = .queued then 1 else 0) ∧ pc.Goes lost fun _ => 0
  | .stop => True

@[simp] lemma forall_sem {p : Sem → Prop} : (∀ s, p s) ↔ p .slots ∧ p .aux ∧ p .io := by
  constructor
  · exact fun h => ⟨h _, h _, h _⟩
  · rintro ⟨h₁, h₂, h₃⟩ s
    cases s <;> assumption

@[simp] lemma forall_counter {p : Counter → Prop} : (∀ c, p c) ↔ p .queued ∧ p .ioWait ∧ p .inflight := by
  constructor
  · exact fun h => ⟨h _, h _, h _⟩
  · rintro ⟨h₁, h₂, h₃⟩ c
    cases c <;> assumption

lemma code_fits (lane : LaneName) (limits : Limits) (pc : PC) : (pc.code lane limits).Fits pc := by
  cases pc with
  | enqueue bounded =>
    intro v
    dsimp only
    split_ifs <;> simp [PC.Goes, Status.Leads]
  | readInflight n =>
    intro v
    dsimp only
    split_ifs <;> simp [PC.Goes, Status.Leads]
  | admitting =>
    rw [PC.code]
    split_ifs <;> simp [Instr.Fits, PC.GoesBy, Status.Leads]
  | waitIo aux => cases aux <;> simp [PC.code, Instr.Fits, PC.GoesBy, Status.Leads]
  | gotIo aux => cases aux <;> simp [PC.code, Instr.Fits, PC.Goes, Status.Leads]
  | stopWaiting aux => cases aux <;> simp [PC.code, Instr.Fits, PC.Goes, Status.Leads]
  | running aux => cases aux <;> simp [PC.code, Instr.Fits, PC.GoesBy, Status.Leads]
  | _ => simp [PC.code, Instr.Fits, PC.Goes, PC.GoesBy, Status.Leads]

@[simp] def PC.lone : PC → Bool
  | .waitIo aux | .gotIo aux | .stopWaiting aux | .running aux => !aux
  | _ => false

@[simp] def PC.unissued : PC → Bool
  | .queue | .readIOWait _ | .readInflight _ | .issue => true
  | _ => false

@[simp] def PC.issued : PC → Bool
  | .enter | .entering | .acquire _ | .enqueue _ | .reject | .askSlot | .waitSlot | .gotSlot | .direct => false
  | pc => !pc.unissued

/-- What a work does whose ticket has not left, or was cancelled. -/
@[simp] def PC.turnedAway : PC → Bool
  | .ticketed | .askTicketSlot | .waitTicketSlot | .gotTicketSlot | .giveUp | .leaveTicket | .dropWait | .dropSlot | .ended => true
  | _ => false

/-- What may follow an instruction; `won` tells that it took the ticket's place. -/
def Instr.Next (next : PC) (won : Bool) : Instr → Prop
  | .add _ _ f => ∃ v, next = f v
  | .tryAcquire yes no => next = yes ∨ next = no
  | .acquire _ got waiting => next = got ∨ next = waiting
  | .await _ got expired => next = got ∨ next = expired
  | .release _ next' => next = next'
  | .issue => next = .ticketed
  | .ifLeft left stays => next = left ∨ next = stays
  | .leave next' lost => won = true ∧ next = next' ∨ next = lost
  | .stop => False

lemma code_next {lane : LaneName} {limits : Limits} {pc next : PC} {won : Bool} (h : (pc.code lane limits).Next next won) :
    (next.lone → pc.lone ∨ lane = .serve) ∧ (next.unissued → pc.unissued) ∧ (pc.issued → next.issued) ∧
      (pc.turnedAway → won = false → next.turnedAway) := by
  cases pc with
  | admitting =>
    rw [PC.code] at h
    split_ifs at h with hserve
    · rcases h with rfl | rfl <;> simp [hserve]
    · rcases h with rfl | rfl <;> simp
  | waitIo aux => cases aux <;> rcases h with rfl | rfl <;> simp
  | running aux => cases aux <;> cases h <;> simp
  | enqueue _ | readInflight _ =>
    obtain ⟨v, rfl⟩ := h
    dsimp only
    split_ifs <;> simp
  | giveUp | leaveTicket => rcases h with ⟨rfl, rfl⟩ | rfl <;> simp
  | ended => exact False.elim h
  | _ =>
    simp only [PC.code, Instr.Next] at h
    first
      | subst h; simp
      | rcases h with rfl | rfl <;> simp
      | obtain ⟨v, rfl⟩ := h; simp +contextual

lemma code_queued {lane : LaneName} {limits : Limits} {pc : PC} {n : Int} {next : Int → PC} (h : pc.code lane limits = .add .queued n next) :
    n = -1 ∧ (∀ v, ¬ (next v).unissued) ∨ n = 1 ∧ ¬ pc.issued := by
  cases pc with
  | admitting =>
    rw [PC.code] at h
    split_ifs at h
  | _ =>
    simp only [PC.code, reduceCtorEq, Instr.add.injEq, false_and] at h
    try obtain ⟨-, rfl, rfl⟩ := h
    all_goals simp

namespace Work

def weight (w : Work) (c : Counter) : Int :=
  w.pc.weight c + if c = .queued then (if w.ticket = some false then 1 else 0) + if w.cancelling then 1 else 0 else 0

def status (w : Work) : SemName → Status
  | .lane l => if l = w.lane then w.pc.status .slots else .before
  | .aux => w.pc.status .aux
  | .io => w.pc.status .io

/-- A ticket is counted once, and once more as it leaves; a work whose ticket was cancelled is
turned away; only Serve's ask for IO alone. -/
structure Fits (w : Work) : Prop where
  lone : w.pc.lone → w.lane = .serve
  unissued : w.pc.unissued → w.departed = 0
  issued : w.ticket.isSome → w.pc.issued ∧ w.departed + w.weight .queued = 1
  cancelling : w.cancelling → w.ticket = some true
  canceled : w.canceled → w.ticket = some true
  away : w.canceled ∨ w.ticket = some false → w.pc.turnedAway

variable {w : Work} {limits : Limits} {next : PC} {I : Instr}

lemma Fits.goes (h : w.Fits) (hcode : w.pc.code w.lane limits = I) (hnext : I.Next next false) {n d : Int}
    (hn : next.weight .queued = w.pc.weight .queued + n) (hd : w.pc.issued → d + n = w.departed) (hu : next.unissued → d = w.departed) :
    Fits { w with pc := next, departed := d } := by
  obtain ⟨hlone, hunissued, hissued, haway⟩ := code_next (hcode ▸ hnext)
  constructor
  · exact fun hl => (hlone hl).elim h.lone id
  · exact fun hl => (hu hl).trans (h.unissued (hunissued hl))
  · intro ht
    obtain ⟨hpc, hsum⟩ := h.issued ht
    refine ⟨hissued hpc, ?_⟩
    have hsame := hd hpc
    simp only [weight, hn] at hsum ⊢
    omega
  · exact h.cancelling
  · exact h.canceled
  · exact fun hc => haway (h.away hc) rfl

lemma Fits.same (h : w.Fits) (hcode : w.pc.code w.lane limits = I) (hnext : I.Next next false) (hn : next.weight .queued = w.pc.weight .queued) :
    Fits { w with pc := next } :=
  h.goes hcode hnext (hn.trans (Int.add_zero _).symm) (fun _ => Int.add_zero _) fun _ => rfl

lemma Fits.ticket_eq_none (h : w.Fits) (hu : w.pc.unissued) : w.ticket = none := by
  by_contra hsome
  have hpc := (h.issued (isSome_iff_ne_none.mpr hsome)).1
  cases hp : w.pc <;> simp_all

lemma Fits.not_cancelling (h : w.Fits) (hticket : w.ticket ≠ some true) : w.cancelling = false := by
  by_contra hc
  exact hticket (h.cancelling (by simpa using hc))

lemma Fits.issue (h : w.Fits) (hu : w.pc.unissued) :
    Fits { w with pc := .ticketed, ticket := some false } := by
  have hnone := h.ticket_eq_none hu
  have hcancelling := h.not_cancelling (by simp [hnone])
  constructor
  · simp
  · simp
  · simp [weight, h.unissued hu, hcancelling]
  · simp [hcancelling]
  · intro hc
    simp [h.canceled hc] at hnone
  · simp

lemma Fits.leave (h : w.Fits) (hticket : w.ticket = some false) (hcode : w.pc.code w.lane limits = I) (hnext : I.Next next true)
    (hn : next.weight .queued = w.pc.weight .queued + 1) : Fits { w with pc := next, ticket := some true } := by
  obtain ⟨hlone, hunissued, hissued, -⟩ := code_next (hcode ▸ hnext)
  have hsum := h.issued (by simp [hticket])
  constructor
  · exact fun hl => (hlone hl).elim h.lone id
  · exact fun hu => h.unissued (hunissued hu)
  · intro _
    refine ⟨hissued hsum.1, ?_⟩
    simp only [weight, hn, hticket, if_true] at hsum ⊢
    simp only [some.injEq, Bool.true_eq_false, if_false]
    omega
  · exact fun _ => rfl
  · exact fun _ => rfl
  · rintro (hc | hc)
    · simp [h.canceled hc] at hticket
    · simp at hc

lemma Fits.cancel (h : w.Fits) (hticket : w.ticket = some false) :
    Fits { w with ticket := some true, cancelling := true, canceled := true } := by
  obtain ⟨hpc, hsum⟩ := h.issued (by simp [hticket])
  have hcancelling := h.not_cancelling (by simp [hticket])
  constructor
  · exact h.lone
  · exact h.unissued
  · intro _
    simp only [weight, hticket, hcancelling] at hsum ⊢
    exact ⟨hpc, by simpa using hsum⟩
  · exact fun _ => rfl
  · exact fun _ => rfl
  · exact fun _ => h.away (.inr hticket)

lemma Fits.uncount (h : w.Fits) (hcancelling : w.cancelling) :
    Fits { w with cancelling := false, departed := w.departed + 1 } := by
  have hticket := h.cancelling hcancelling
  obtain ⟨hpc, hsum⟩ := h.issued (by simp [hticket])
  constructor
  · exact h.lone
  · intro hu
    cases hp : w.pc <;> simp_all
  · intro _
    simp only [weight, hticket, hcancelling] at hsum ⊢
    refine ⟨hpc, ?_⟩
    simp at hsum ⊢
    omega
  · simp
  · exact h.canceled
  · exact h.away

end Work

namespace Lanes
variable {io : Int} {limits : LaneName → Option Limits} {b b' : Lanes} {i : Nat} {w w' : Work}

def statusAt (b : Lanes) (i : Nat) (n : SemName) : Status := (b.works[i]?.map (·.status n)).getD .before

structure Sound (io : Int) (limits : LaneName → Option Limits) (b : Lanes) : Prop where
  sems : ∀ n, (b.sem n).Sound ∧ (b.sem n).sem.size = size io limits n
  status : ∀ i n, (b.sem n).At i (b.statusAt i n)
  counts : ∀ lane c, b.count lane c = (b.works.map fun w => if w.lane = lane then w.weight c else 0).sum
  fits : ∀ w ∈ b.works, w.Fits

lemma sum_set {l : List Work} (hi : l[i]? = some w) (f : Work → Int) :
    ((l.set i w').map f).sum = (l.map f).sum + (f w' - f w) := by
  induction l generalizing i with
  | nil => simp at hi
  | cons a l ih =>
    cases i with
    | zero =>
      cases hi
      simp only [List.set_cons_zero, map_cons, sum_cons]
      omega
    | succ i =>
      have hrest := ih (i := i) (by simpa using hi)
      simp only [List.set_cons_succ, map_cons, sum_cons, hrest]
      omega

lemma Sound.put (h : b.Sound io limits) (hi : b.works[i]? = some w) (hworks : b'.works = b.works.set i w') (hlane : w'.lane = w.lane)
    (hfits : w'.Fits)
    (hsem : ∀ n, b'.sem n = b.sem n ∧ (w.status n).Leads (w'.status n) ∨ (b.sem n).Moves i (w'.status n) (b'.sem n))
    (hcount : ∀ lane c, b'.count lane c = b.count lane c + if w.lane = lane then w'.weight c - w.weight c else 0) :
    b'.Sound io limits := by
  have hhere : ∀ n, (b.sem n).At i (w.status n) := by
    intro n
    have hat := h.status i n
    rwa [statusAt, hi] at hat
  obtain ⟨hlt, -⟩ := List.getElem?_eq_some_iff.mp hi
  constructor
  · intro n
    rcases hsem n with ⟨hsame, -⟩ | hmoves
    · rw [hsame]
      exact h.sems n
    · exact ⟨hmoves.sound, hmoves.size.trans (h.sems n).2⟩
  · intro j n
    by_cases hj : j = i
    · subst hj
      have hstatus : b'.statusAt j n = w'.status n := by simp [statusAt, hworks, hlt]
      rw [hstatus]
      rcases hsem n with ⟨hsame, hleads⟩ | hmoves
      · rw [hsame]
        exact (hhere n).leads hleads
      · exact hmoves.here
    · have hstatus : b'.statusAt j n = b.statusAt j n := by simp [statusAt, hworks, List.getElem?_set_ne (Ne.symm hj)]
      rw [hstatus]
      rcases hsem n with ⟨hsame, -⟩ | hmoves
      · rw [hsame]
        exact h.status j n
      · exact hmoves.others j hj _ (h.status j n)
  · intro lane c
    rw [hcount, h.counts, hworks, sum_set hi, hlane]
    split_ifs <;> omega
  · intro x hx
    rw [hworks] at hx
    rcases mem_or_eq_of_mem_set hx with hx | rfl
    · exact h.fits x hx
    · exact hfits

lemma status_goes {next : PC} {delta : Counter → Int} (h : w.pc.Goes next delta) {d : Int} {t : Option Bool} {x y : Bool} (n : SemName) :
    (w.status n).Leads (Work.status ⟨w.lane, next, t, x, y, d⟩ n) := by
  cases n with
  | lane l =>
    by_cases hl : l = w.lane
    · simpa [Work.status, hl] using h.1 .slots
    · simp [Work.status, hl, Status.Leads]
  | aux => exact h.1 .aux
  | io => exact h.1 .io

lemma status_goesBy {next : PC} {s : Sem} {st st' : Status} (h : w.pc.GoesBy next s st st') {n : SemName} (hn : n ≠ s.name w.lane) :
    (w.status n).Leads (Work.status { w with pc := next } n) := by
  cases n with
  | lane l =>
    by_cases hl : l = w.lane
    · subst hl
      simpa [Work.status] using h.2.2.1 .slots fun hs => hn (hs ▸ rfl)
    · simp [Work.status, hl, Status.Leads]
  | aux => exact h.2.2.1 .aux fun hs => hn (hs ▸ rfl)
  | io => exact h.2.2.1 .io fun hs => hn (hs ▸ rfl)

lemma status_name (w : Work) (s : Sem) : w.status (s.name w.lane) = w.pc.status s := by
  cases s <;> simp [Work.status, Sem.name]

lemma Sound.here (h : b.Sound io limits) (hi : b.works[i]? = some w) (s : Sem) : (b.sem (s.name w.lane)).At i (w.pc.status s) := by
  have hat := h.status i (s.name w.lane)
  rwa [statusAt, hi, map_some, getD_some, status_name] at hat

lemma setSem_self (b : Lanes) (n : SemName) : b.setSem n (b.sem n) = b := by
  have hsem : (fun m => if m = n then b.sem n else b.sem m) = b.sem := by
    funext m
    split_ifs with hm
    · rw [hm]
    · rfl
  rw [setSem, hsem]

lemma Sound.by (h : b.Sound io limits) (hi : b.works[i]? = some w) {next : PC} {s : Sem} {st st' : Status} {x : Slots} {I : Instr}
    (hgoes : w.pc.GoesBy next s st st') (hcode : w.pc.code w.lane (laneLimits w.lane limits) = I) (hnext : I.Next next false)
    (hmoves : (b.sem (s.name w.lane)).Moves i st' x) :
    ((b.setSem (s.name w.lane) x).setWork i { w with pc := next }).Sound io limits := by
  have hw := h.fits w (mem_of_getElem? hi)
  refine h.put hi rfl rfl (hw.same hcode hnext (hgoes.2.2.2 .queued)) ?_ ?_
  · intro n
    by_cases hn : n = s.name w.lane
    · right
      subst hn
      have hstatus : Work.status { w with pc := next } (s.name w.lane) = st' :=
        (status_name { w with pc := next } s).trans hgoes.2.1
      simpa [setSem, setWork, hstatus] using hmoves
    · left
      exact ⟨by simp [setSem, setWork, hn], status_goesBy hgoes hn⟩
  · intro lane c
    have hweight : Work.weight { w with pc := next } c = w.weight c := by simp only [Work.weight, hgoes.2.2.2 c]
    simp [setSem, setWork, hweight]

lemma Sound.goes (h : b.Sound io limits) (hi : b.works[i]? = some w) {next : PC} {delta : Counter → Int} (hgoes : w.pc.Goes next delta)
    {t : Option Bool} {d : Int} (hfits : Work.Fits { w with pc := next, ticket := t, departed := d })
    {count : LaneName → Counter → Int}
    (hcount : ∀ lane c, count lane c = b.count lane c + if w.lane = lane then
      delta c + (if c = .queued then (if t = some false then 1 else 0) - (if w.ticket = some false then 1 else 0) else 0) else 0) :
    Sound io limits { b with count := count, works := b.works.set i { w with pc := next, ticket := t, departed := d } } := by
  refine h.put hi rfl rfl hfits (fun n => .inl ⟨rfl, status_goes hgoes n⟩) ?_
  intro lane c
  simp only [hcount, Work.weight, hgoes.2 c]
  split_ifs <;> omega

lemma Sound.exec (h : b.Sound io limits) (hi : b.works[i]? = some w) (hexec : b.exec limits i w = some b') : b'.Sound io limits := by
  have hw := h.fits w (mem_of_getElem? hi)
  have hfits := code_fits w.lane (laneLimits w.lane limits) w.pc
  rw [Lanes.exec] at hexec
  cases hcode : w.pc.code w.lane (laneLimits w.lane limits) with
  | add c n next =>
    simp only [hcode, Instr.Fits] at hfits hexec
    cases hexec
    refine h.goes hi (hfits _) (hw.goes hcode ⟨_, rfl⟩ ((hfits _).2 .queued) ?_ ?_) ?_
    · intro hpc
      by_cases hc : c = .queued
      · subst hc
        rcases code_queued hcode with ⟨rfl, -⟩ | ⟨-, hnot⟩
        · simp
        · exact absurd hpc hnot
      · simp [hc, Ne.symm hc]
    · intro hu
      rw [if_neg]
      rintro ⟨rfl, hneg⟩
      rcases code_queued hcode with ⟨-, hnot⟩ | ⟨rfl, -⟩
      · exact hnot _ hu
      · simp at hneg
    · intro lane d
      simp only [add]
      split_ifs <;> grind
  | tryAcquire yes no =>
    simp only [hcode, Instr.Fits] at hfits hexec
    cases htry : (b.sem (.lane w.lane)).tryAcquire i with
    | some s =>
      simp only [htry] at hexec
      cases hexec
      exact h.by hi (s := .slots) hfits.1 hcode (.inl rfl) ((h.sems _).1.tryAcquire (hfits.1.1 ▸ h.here hi .slots) htry)
    | none =>
      simp only [htry] at hexec
      cases hexec
      exact h.goes hi hfits.2 (hw.same hcode (.inr rfl) (by simpa using hfits.2.2 .queued)) (by simp)
  | acquire s got waiting =>
    simp only [hcode, Instr.Fits] at hfits hexec
    cases hexec
    have hmoves := (h.sems (s.name w.lane)).1.acquire (hfits.1.1 ▸ h.here hi s)
    by_cases hr : ((b.sem (s.name w.lane)).acquire i).1 = true
    · simp only [hr, if_true] at hmoves ⊢
      exact h.by hi hfits.1 hcode (.inl rfl) hmoves
    · simp only [hr, if_false, Bool.false_eq_true] at hmoves ⊢
      exact h.by hi hfits.2 hcode (.inr rfl) hmoves
  | await s got expired =>
    simp only [hcode, Instr.Fits] at hfits hexec
    split_ifs at hexec with hwaits
    cases hexec
    have hwanted := h.here hi s
    rw [hfits.1.1] at hwanted
    have hsound := h.by hi hfits.1 hcode (.inl rfl) ⟨(h.sems _).1, rfl, hwanted.wake hwaits, fun _ _ _ => id⟩
    rwa [setSem_self] at hsound
  | release s next =>
    simp only [hcode, Instr.Fits] at hfits hexec
    cases hexec
    exact h.by hi hfits hcode rfl ((h.sems _).1.release (hfits.1 ▸ h.here hi s))
  | issue =>
    simp only [hcode, Instr.Fits] at hfits hexec
    cases hexec
    have hu : w.pc.unissued := by
      cases hp : w.pc with
      | issue => rfl
      | admitting =>
        rw [hp, PC.code] at hcode
        split_ifs at hcode
      | _ => simp [hp, PC.code] at hcode
    refine h.goes hi hfits (hw.issue hu) ?_
    intro lane c
    cases c <;> simp [hw.ticket_eq_none hu]
  | ifLeft left stays =>
    simp only [hcode, Instr.Fits] at hfits hexec
    cases hexec
    split_ifs
    · exact h.goes hi hfits.1 (hw.same hcode (.inl rfl) (by simpa using hfits.1.2 .queued)) (by simp)
    · exact h.goes hi hfits.2 (hw.same hcode (.inr rfl) (by simpa using hfits.2.2 .queued)) (by simp)
  | leave won lost =>
    simp only [hcode, Instr.Fits] at hfits hexec
    split_ifs at hexec with hticket
    · cases hexec
      refine h.goes hi hfits.1 (hw.leave hticket hcode (.inl ⟨rfl, rfl⟩) (hfits.1.2 .queued)) ?_
      intro lane c
      cases c <;> simp [hticket]
    · cases hexec
      exact h.goes hi hfits.2 (hw.same hcode (.inr rfl) (by simpa using hfits.2.2 .queued)) (by simp)
  | stop => simp [hcode] at hexec

lemma Sound.call (h : b.Sound io limits) {lane : LaneName} {entry : PC} (hentry : entry.entry) :
    Sound io limits { b with works := b.works ++ [{ lane := lane, pc := entry }] } := by
  have hstatus : ∀ n, Work.status { lane := lane, pc := entry } n = .before := by
    intro n
    cases entry <;> cases n <;> simp_all [PC.entry, Work.status]
  constructor
  · exact h.sems
  · intro i n
    have hat := h.status i n
    rw [statusAt] at hat ⊢
    by_cases hi : i < b.works.length
    · rwa [getElem?_append_left hi]
    · rw [List.getElem?_eq_none (Nat.not_lt.mp hi)] at hat
      rw [getElem?_append_right (Nat.not_lt.mp hi), List.getElem?_singleton]
      split_ifs
      · rwa [map_some, getD_some, hstatus]
      · exact hat
  · intro l c
    have hweight : Work.weight { lane := lane, pc := entry } c = 0 := by
      cases entry <;> cases c <;> simp_all [PC.entry, Work.weight]
    simp [h.counts, hweight]
  · intro w hw
    rcases mem_append.mp hw with hw | hw
    · exact h.fits w hw
    · cases mem_singleton.mp hw
      constructor <;> cases entry <;> simp_all [PC.entry]

lemma Sound.step {a : LaneAction} (h : b.Sound io limits) (hstep : b.step limits a = some b') : b'.Sound io limits := by
  cases a with
  | call lane entry =>
    rw [Lanes.step] at hstep
    split_ifs at hstep with hentry hclosed
    · cases hstep
      exact h
    · cases hstep
      exact h.call hentry
  | next i =>
    obtain ⟨w, hi, hexec⟩ := bind_eq_some_iff.mp hstep
    exact h.exec hi hexec
  | expire i =>
    rw [Lanes.step] at hstep
    obtain ⟨w, hi, hstep⟩ := bind_eq_some_iff.mp hstep
    have hfits := code_fits w.lane (laneLimits w.lane limits) w.pc
    split at hstep
    · rename_i s got expired hcode
      cases hstep
      rw [hcode] at hfits
      exact h.by hi hfits.2 hcode (.inr rfl) ((h.sems _).1.expire (hfits.2.1 ▸ h.here hi s))
    · cases hstep
  | cancel i =>
    rw [Lanes.step] at hstep
    obtain ⟨w, hi, hstep⟩ := bind_eq_some_iff.mp hstep
    have hw := h.fits w (mem_of_getElem? hi)
    split_ifs at hstep with hticket
    · cases hstep
      refine h.put hi rfl rfl (hw.cancel hticket) (fun n => .inl ⟨rfl, .inl ?_⟩) ?_
      · cases n <;> rfl
      · intro lane c
        cases c <;> simp [setWork, Work.weight, hticket, hw.not_cancelling]
    · cases hstep
      exact h
  | uncount i =>
    rw [Lanes.step] at hstep
    obtain ⟨w, hi, hstep⟩ := bind_eq_some_iff.mp hstep
    have hw := h.fits w (mem_of_getElem? hi)
    split_ifs at hstep with hcancelling
    cases hstep
    refine h.put hi rfl rfl (hw.uncount hcancelling) (fun n => .inl ⟨rfl, .inl ?_⟩) ?_
    · cases n <;> rfl
    · intro lane c
      cases c <;> simp [setWork, add, Work.weight, hcancelling, eq_comm]
      split_ifs <;> omega
  | close =>
    cases hstep
    exact ⟨h.sems, h.status, h.counts, h.fits⟩

def holders (b : Lanes) (p : Work → Bool) : List Nat := (List.range b.works.length).filter fun i => b.works[i]?.any p

def Idle (b : Lanes) : Prop := ∀ w ∈ b.works, w.pc = .ended ∧ w.ticket ≠ some false ∧ w.cancelling = false

structure Bounded (io : Int) (limits : LaneName → Option Limits) (b : Lanes) : Prop where
  lanes : ∀ lane, (b.holders fun w => w.lane = lane && w.pc.status .slots = .held).length ≤ max 1 (laneLimits lane limits).maxConcurrent
  aux : (b.holders fun w => w.lane ≠ .serve && w.pc.status .io = .held).length ≤ max 1 (ioSize io / 2)
  /-- A work is given a slot once and gives it back once; those in use are those not given back. -/
  slots : ∀ n, (b.sem n).given.Nodup ∧ (b.sem n).returned.Nodup ∧ (b.sem n).returned ⊆ (b.sem n).given ∧
    (b.sem n).sem.used = (b.sem n).given.length - (b.sem n).returned.length
  /-- A ticket counts in the queue, or was counted down once. -/
  tickets : ∀ w ∈ b.works, w.ticket.isSome → w.departed + w.weight .queued = 1
  canceled : ∀ w ∈ b.works, w.canceled → w.pc.status .io ≠ .held
  idle : b.Idle → ∀ lane c n, b.count lane c = 0 ∧ (b.sem n).sem.used = 0 ∧ (b.sem n).returned.Perm (b.sem n).given

lemma Sound.length_holders (h : b.Sound io limits) {p : Work → Bool} {n : SemName} (hp : ∀ w, w.Fits → p w → w.status n = .held) :
    (b.holders p).length ≤ size io limits n := by
  obtain ⟨hsound, hsize⟩ := h.sems n
  have hheld : ∀ i ∈ b.holders p, (b.sem n).At i .held := by
    intro i hi
    obtain ⟨-, hi⟩ := mem_filter.mp hi
    cases hw : b.works[i]? with
    | none => simp [hw] at hi
    | some w =>
      have hat := h.status i n
      rw [hw, any_some] at hi
      rwa [statusAt, hw, map_some, getD_some, hp w (h.fits w (mem_of_getElem? hw)) hi] at hat
  have hle := hsound.length_le (List.nodup_range.filter _) hheld
  rw [← hsize]
  exact Int.le_trans hle hsound.within

lemma status_aux_of_io (hw : w.Fits) (hlane : w.lane ≠ .serve) (hio : w.pc.status .io = .held) : w.pc.status .aux = .held := by
  have hlone := mt hw.lone hlane
  cases hp : w.pc with
  | gotIo aux => simp_all
  | stopWaiting aux => simp_all
  | running aux => simp_all
  | _ => simp [hp] at hio

lemma Sound.returned_perm (h : b.Sound io limits) (hidle : b.Idle) (n : SemName) : (b.sem n).returned.Perm (b.sem n).given := by
  obtain ⟨hsound, -⟩ := h.sems n
  apply (perm_ext_iff_of_nodup hsound.returned.1 hsound.once.of_append_left).mpr
  intro i
  refine ⟨fun hi => hsound.returned.2 hi, fun hi => ?_⟩
  have hat := h.status i n
  rw [statusAt] at hat
  cases hw : b.works[i]? with
  | none =>
    rw [hw] at hat
    exact absurd hi hat.1
  | some w =>
    have hended := (hidle w (mem_of_getElem? hw)).1
    rw [hw, map_some, getD_some] at hat
    cases n with
    | lane l =>
      by_cases hl : l = w.lane
      · subst hl
        simp only [Work.status, hended, if_true] at hat
        exact hat.2 hi
      · simp only [Work.status, hl] at hat
        exact absurd hi hat.1
    | aux =>
      simp only [Work.status, hended] at hat
      exact hat.2 hi
    | io =>
      simp only [Work.status, hended] at hat
      exact hat.2 hi

lemma Sound.bounded (h : b.Sound io limits) : b.Bounded io limits where
  lanes := by
    intro lane
    refine h.length_holders (n := .lane lane) ?_
    intro w _ hw
    obtain ⟨hlane, hheld⟩ := Bool.and_eq_true_iff.mp hw
    simp only [decide_eq_true_eq] at hlane hheld
    rw [Work.status, if_pos hlane.symm, hheld]
  aux := by
    refine h.length_holders (n := .aux) ?_
    intro w hfits hw
    obtain ⟨hlane, hheld⟩ := Bool.and_eq_true_iff.mp hw
    simp only [decide_eq_true_eq] at hlane hheld
    exact status_aux_of_io hfits hlane hheld
  slots := by
    intro n
    obtain ⟨hsound, -⟩ := h.sems n
    have hused := hsound.used
    exact ⟨hsound.once.of_append_left, hsound.returned.1, hsound.returned.2, by omega⟩
  tickets := fun w hw ht => ((h.fits w hw).issued ht).2
  canceled := by
    intro w hw hc
    have haway := (h.fits w hw).away (.inl hc)
    cases hp : w.pc <;> simp_all
  idle := by
    intro hidle lane c n
    have hperm := h.returned_perm hidle n
    have hused := (h.sems n).1.used
    have hlen := hperm.length_eq
    refine ⟨?_, by omega, hperm⟩
    rw [h.counts]
    apply List.sum_eq_zero
    intro x hx
    obtain ⟨w, hw, rfl⟩ := mem_map.mp hx
    obtain ⟨hended, hticket, hcancelling⟩ := hidle w hw
    cases c <;> simp [Work.weight, hended, hticket, hcancelling]

lemma sound_start (io : Int) (limits : LaneName → Option Limits) : (start io limits).Sound io limits where
  sems := by
    intro n
    refine ⟨⟨by simp [start, Slots.new, newSemaphore, Semaphore.resize, grantLocked],
      ⟨by simp [start, Slots.new], by simp [start, Slots.new]⟩,
      by simp [start, Slots.new, newSemaphore, Semaphore.resize, grantLocked], ?_⟩, rfl⟩
    have hsize : 0 ≤ size io limits n := by
      cases n with
      | lane l => exact Int.le_trans (by decide) (Int.le_max_left 1 _)
      | aux => exact Int.le_trans (by decide) (Int.le_max_left 1 _)
      | io =>
        rw [size, ioSize, defaultIo]
        split_ifs <;> omega
    exact hsize
  status := by simp [start, statusAt, Slots.new, Slots.At, newSemaphore, Semaphore.resize, grantLocked]
  counts := by simp [start]
  fits := by simp [start]

/-- Over every interleaving of works on the lanes of a bus with fixed limits: no more works of a
lane hold its slots, and no more of the lanes other than Serve hold IO, than may; every slot given
is given back once, a ticket leaves the queue once and its work does not run once it was cancelled,
and with all work ended and all tickets out nothing is counted and no slot is in use. -/
theorem lanes_bounded (io : Int) (limits : LaneName → Option Limits) (b : Lanes)
    (h : Transition.Reachable (step limits) (fun _ => True) (start io limits) b) : b.Bounded io limits := by
  have hsound : b.Sound io limits := h.invariant (sound_start io limits) fun _ _ _ hb _ _ hstep => hb.step hstep
  exact hsound.bounded

/-- A ticket of the lane of scans, cancelled after its work was given the slot. -/
def lateCancel : List LaneAction :=
  [.call .scan .queue, .next 0, .next 0, .next 0, .next 0, .next 0, .next 0, .next 0, .cancel 0, .next 0, .uncount 0, .next 0, .next 0]

theorem lanes_bounded_lateCancel : ∃ b, Transition.run (step fun _ => none) (start 4 fun _ => none) lateCancel = some b ∧
    b.works = [{ lane := .scan, pc := .ended, ticket := some true, canceled := true, departed := 1 }] ∧
    b.Bounded 4 fun _ => none := by
  have hrun : (Transition.run (step fun _ => none) (start 4 fun _ => none) lateCancel).map (·.works) =
      some [{ lane := .scan, pc := .ended, ticket := some true, canceled := true, departed := 1 }] := by decide
  obtain ⟨b, hb, hworks⟩ := map_eq_some_iff.mp hrun
  exact ⟨b, hb, hworks, lanes_bounded 4 _ b (Transition.reachable_of_run (.start trivial) hb)⟩

end Lanes

end SqlMcpServer.Bus
