import SqlMcpServer.Lib.Transition
import Mathlib.Data.List.Perm.Basic
import Mathlib.Data.Nat.Bitwise

/-!
# The circuit breaker

`Breaker` of `core/ratelimit`: requests take a ticket from `Allow` and end with `Record` or
`Release`, perhaps after the breaker changed state.
-/

namespace SqlMcpServer.Engine

open List

/-- Times are nanoseconds after 1970, `openUntil` 0 when closed. -/
structure Breaker where
  threshold : Int
  cooldown : Nat
  failures : Int := 0
  openUntil : Nat := 0
  probe : Nat := 0
  probes : Nat := 0
  epoch : Nat := 0
deriving DecidableEq, Repr

def probeTicket : Nat := 2 ^ 63

def isProbe (ticket : Nat) : Bool := ticket &&& probeTicket ≠ 0

namespace Breaker
variable (b : Breaker) (now ticket : Nat)

def allow : Option Nat × Breaker :=
  if b.openUntil = 0 then (some b.epoch, b)
  else if now < b.openUntil then (none, b)
  else
    let ticket := (b.probes + 1) ||| probeTicket
    if b.probe = 0 then (some ticket, { b with probes := b.probes + 1, probe := ticket })
    else (none, { b with probes := b.probes + 1 })

def release : Breaker := if isProbe ticket ∧ b.probe = ticket then { b with probe := 0 } else b

def record (success : Bool) : Breaker :=
  if b.openUntil ≠ 0 then
    if isProbe ticket = false ∨ b.probe ≠ ticket then b
    else if success then { b with probe := 0, failures := 0, epoch := b.epoch + 1, openUntil := 0 }
    else { b with probe := 0, openUntil := now + b.cooldown }
  else if ticket ≠ b.epoch then b
  else if success then { b with failures := 0 }
  else if b.failures + 1 ≥ b.threshold then
    { b with failures := b.failures + 1, openUntil := now + b.cooldown, probe := 0, epoch := b.epoch + 1 }
  else { b with failures := b.failures + 1 }

end Breaker

/-- A request let through: whether the breaker was open, and how often it had opened or closed before. -/
structure Pass where
  ticket : Nat
  probe : Bool
  era : Nat
deriving DecidableEq, Repr

/-- A breaker, the requests let through that have not ended, and the outcomes recorded, last
first, with their requests' eras. -/
structure Watch where
  b : Breaker
  now : Nat
  changes : Nat := 0
  passes : List Pass := []
  log : List (Nat × Bool) := []
deriving DecidableEq, Repr

inductive Event where
  | tick (d : Nat)
  | allow
  | record (p : Pass) (success : Bool)
  | release (p : Pass)

namespace Watch

def isOpen (s : Watch) : Prop := s.b.openUntil ≠ 0

instance (s : Watch) : Decidable s.isOpen := inferInstanceAs (Decidable (_ ≠ _))

def start (threshold : Int) (cooldown now : Nat) : Watch := { b := { threshold, cooldown }, now }

def step (s : Watch) : Event → Option Watch
  | .tick d => some { s with now := s.now + d }
  | .allow =>
    match s.b.allow s.now with
    | (some ticket, b) => some { s with b, passes := ⟨ticket, s.isOpen, s.changes⟩ :: s.passes }
    | (none, b) => some { s with b }
  | .record p success =>
    if p ∈ s.passes then
      let b := s.b.record s.now p.ticket success
      some { s with
        b
        changes := if (b.openUntil = 0) = (s.b.openUntil = 0) then s.changes else s.changes + 1
        passes := s.passes.erase p
        log := (p.era, success) :: s.log }
    else none
  | .release p => if p ∈ s.passes then some { s with b := s.b.release p.ticket, passes := s.passes.erase p } else none

/-- The failures recorded in a row, up to now, by requests let through in an era. -/
def failing (era : Nat) : List (Nat × Bool) → Nat
  | [] => 0
  | (e, success) :: log => if e = era then if success then 0 else failing era log + 1 else failing era log

/-- The step starts a cooldown: it opens the breaker, or is the failure of its probe. -/
def Cools (s : Watch) (e : Event) : Prop := ¬ s.isOpen ∨ ∃ p ∈ s.passes, p.probe ∧ e = .record p false

structure Regular (s : Watch) (e : Event) (s' : Watch) : Prop where
  opens : ¬ s.isOpen → (s'.isOpen ↔ s.b.threshold ≤ failing s.changes s'.log)
  shut : s.isOpen → s.now < s.b.openUntil → s'.passes ⊆ s.passes
  one : (s.passes.filter Pass.probe).length ≤ 1
  closes : s.isOpen → (¬ s'.isOpen ↔ ∃ p ∈ s.passes, p.probe ∧ e = .record p true)
  cools : s'.isOpen → s.Cools e ∧ s'.b.openUntil = s.now + s.b.cooldown ∨ ¬ s.Cools e ∧ s'.b.openUntil = s.b.openUntil
  stale : ∀ p ∈ s.passes, p.era ≠ s.changes → ∀ success, s.b.record s.now p.ticket success = s.b ∧ s.b.release p.ticket = s.b

/-- A request let through while closed has its era as its ticket, the probe its own place. -/
structure Sound (s : Watch) : Prop where
  threshold : 1 ≤ s.b.threshold
  clock : 0 < s.now
  epoch : s.b.epoch = s.changes
  closed : ¬ s.isOpen → s.b.failures = failing s.changes s.log ∧ s.b.failures < s.b.threshold
  log : ∀ o ∈ s.log, o.1 ≤ s.changes
  probe : ∀ p ∈ s.passes, p.probe → s.isOpen ∧ p.era = s.changes ∧ isProbe p.ticket ∧ s.b.probe = p.ticket
  pass : ∀ p ∈ s.passes, p.probe = false → p.ticket = p.era ∧ p.era ≤ s.changes ∧ (s.isOpen → p.era ≠ s.changes)
  one : (s.passes.filter Pass.probe).length ≤ 1

/-- Epochs are told from probes by the highest bit. -/
def Bounded (s : Watch) : Prop := s.b.epoch < probeTicket

instance (s : Watch) : Decidable s.Bounded := inferInstanceAs (Decidable (_ < _))

lemma isProbe_eq (n : Nat) : isProbe n = n.testBit 63 := by
  rw [isProbe, probeTicket, Nat.and_two_pow]
  cases n.testBit 63 <;> decide

lemma isProbe_or (n : Nat) : isProbe (n ||| probeTicket) = true := by
  rw [isProbe_eq, Nat.testBit_or, probeTicket, Nat.testBit_two_pow_self, Bool.or_true]

lemma isProbe_of_lt {n : Nat} (h : n < probeTicket) : isProbe n = false := by
  rw [isProbe_eq]
  exact Nat.testBit_lt_two_pow h

lemma failing_new {era : Nat} {log : List (Nat × Bool)} (h : ∀ o ∈ log, o.1 < era) : failing era log = 0 := by
  induction log with
  | nil => rfl
  | cons o log ih =>
    obtain ⟨ho, hlog⟩ := forall_mem_cons.mp h
    rw [failing, if_neg (Nat.ne_of_lt ho)]
    exact ih hlog

inductive Does (s : Watch) : Event → Watch → Prop where
  | tick (d : Nat) : Does s (.tick d) { s with now := s.now + d }
  | pass (hopen : ¬ s.isOpen) : Does s .allow { s with passes := ⟨s.b.epoch, false, s.changes⟩ :: s.passes }
  | refused (probes : Nat) (hopen : s.isOpen) : Does s .allow { s with b := { s.b with probes } }
  | probe (probes ticket : Nat) (hopen : s.isOpen) (hnow : ¬ s.now < s.b.openUntil) (hplace : s.b.probe = 0) (hbit : isProbe ticket) :
      Does s .allow { s with b := { s.b with probes, probe := ticket }, passes := ⟨ticket, true, s.changes⟩ :: s.passes }
  | closes (p : Pass) (hp : p ∈ s.passes) (hprobe : p.probe) :
      Does s (.record p true) { s with
        b := { s.b with probe := 0, failures := 0, epoch := s.b.epoch + 1, openUntil := 0 }
        changes := s.changes + 1, passes := s.passes.erase p, log := (p.era, true) :: s.log }
  | reopens (p : Pass) (hp : p ∈ s.passes) (hprobe : p.probe) :
      Does s (.record p false) { s with
        b := { s.b with probe := 0, openUntil := s.now + s.b.cooldown }, passes := s.passes.erase p, log := (p.era, false) :: s.log }
  | resets (p : Pass) (hp : p ∈ s.passes) (hopen : ¬ s.isOpen) (hera : p.era = s.changes) :
      Does s (.record p true) { s with b := { s.b with failures := 0 }, passes := s.passes.erase p, log := (p.era, true) :: s.log }
  | counts (p : Pass) (hp : p ∈ s.passes) (hopen : ¬ s.isOpen) (hera : p.era = s.changes) (hlt : s.b.failures + 1 < s.b.threshold) :
      Does s (.record p false) { s with
        b := { s.b with failures := s.b.failures + 1 }, passes := s.passes.erase p, log := (p.era, false) :: s.log }
  | opens (p : Pass) (hp : p ∈ s.passes) (hopen : ¬ s.isOpen) (hera : p.era = s.changes) (hle : s.b.threshold ≤ s.b.failures + 1) :
      Does s (.record p false) { s with
        b := { s.b with failures := s.b.failures + 1, openUntil := s.now + s.b.cooldown, probe := 0, epoch := s.b.epoch + 1 }
        changes := s.changes + 1, passes := s.passes.erase p, log := (p.era, false) :: s.log }
  | ignored (p : Pass) (success : Bool) (hp : p ∈ s.passes) (hprobe : p.probe = false) (hera : p.era ≠ s.changes) :
      Does s (.record p success) { s with passes := s.passes.erase p, log := (p.era, success) :: s.log }
  | frees (p : Pass) (hp : p ∈ s.passes) (hprobe : p.probe) :
      Does s (.release p) { s with b := { s.b with probe := 0 }, passes := s.passes.erase p }
  | leaves (p : Pass) (hp : p ∈ s.passes) (hprobe : p.probe = false) : Does s (.release p) { s with passes := s.passes.erase p }

variable {s s' : Watch} {p q : Pass} {success : Bool} {e : Event}

namespace Sound

lemma isProbe_ticket (h : s.Sound) (hb : s.Bounded) (hp : p ∈ s.passes) : isProbe p.ticket = p.probe := by
  cases hprobe : p.probe with
  | true => exact (h.probe p hp hprobe).2.2.1
  | false =>
    obtain ⟨hticket, hle, -⟩ := h.pass p hp hprobe
    have hepoch := h.epoch
    apply isProbe_of_lt
    rw [hticket]
    exact Nat.lt_of_le_of_lt (hepoch ▸ hle) hb

lemma rest (h : s.Sound) (hp : p ∈ s.passes) (hprobe : p.probe) : ∀ q ∈ s.passes.erase p, q.probe = false := by
  have hperm := (perm_cons_erase hp).filter Pass.probe
  have hone := h.one
  rw [hperm.length_eq, filter_cons_of_pos hprobe, length_cons] at hone
  have hnil : (s.passes.erase p).filter Pass.probe = [] := by
    apply length_eq_zero_iff.mp
    omega
  simpa using hnil

lemma one_erase (h : s.Sound) (p : Pass) : ((s.passes.erase p).filter Pass.probe).length ≤ 1 :=
  (erase_sublist.filter _).length_le.trans h.one

lemma does_record (h : s.Sound) (hb : s.Bounded) (hp : p ∈ s.passes) (hs : s.step (.record p success) = some s') :
    s.Does (.record p success) s' := by
  have hbit := h.isProbe_ticket hb hp
  have hepoch := h.epoch
  have hnow := h.clock.ne'
  rw [Watch.step, if_pos hp] at hs
  obtain rfl := Option.some.inj hs
  cases hprobe : p.probe with
  | true =>
    obtain ⟨hopen, -, -, hplace⟩ := h.probe p hp hprobe
    have hne : s.b.openUntil ≠ 0 := hopen
    cases success with
    | true => simpa [Breaker.record, hne, hbit, hprobe, hplace] using Does.closes p hp hprobe
    | false => simpa [Breaker.record, hne, hbit, hprobe, hplace, hnow] using Does.reopens p hp hprobe
  | false =>
    obtain ⟨hticket, -, hera⟩ := h.pass p hp hprobe
    by_cases hopen : s.isOpen
    · have hne : s.b.openUntil ≠ 0 := hopen
      simpa [Breaker.record, hne, hbit, hprobe] using Does.ignored p success hp hprobe (hera hopen)
    have hzero : s.b.openUntil = 0 := by simpa [isOpen] using hopen
    by_cases hcurrent : p.era = s.changes
    · cases success with
      | true => simpa [Breaker.record, hzero, hticket, hepoch, hcurrent] using Does.resets p hp hopen hcurrent
      | false =>
        by_cases htrip : s.b.threshold ≤ s.b.failures + 1
        · simpa [Breaker.record, hzero, hticket, hepoch, hcurrent, htrip, hnow] using Does.opens p hp hopen hcurrent htrip
        · simpa [Breaker.record, hzero, hticket, hepoch, hcurrent, htrip] using Does.counts p hp hopen hcurrent (by omega)
    · simpa [Breaker.record, hzero, hticket, hepoch, hcurrent] using Does.ignored p success hp hprobe hcurrent

lemma does (h : s.Sound) (hb : s.Bounded) (hs : s.step e = some s') : s.Does e s' := by
  cases e with
  | tick d =>
    cases hs
    exact .tick d
  | allow =>
    simp only [Watch.step, Breaker.allow] at hs
    split_ifs at hs with hzero hnow hplace <;> obtain rfl := Option.some.inj hs
    · simpa [isOpen, hzero] using Does.pass (s := s) (by simp [isOpen, hzero])
    · exact .refused _ hzero
    · simpa [isOpen, hzero] using Does.probe (s := s) _ _ hzero hnow hplace (isProbe_or (s.b.probes + 1))
    · exact .refused _ hzero
  | record p success =>
    have hp : p ∈ s.passes := by
      by_contra hp
      simp [Watch.step, hp] at hs
    exact h.does_record hb hp hs
  | release p =>
    rw [Watch.step, Option.ite_none_right_eq_some] at hs
    obtain ⟨hp, hs⟩ := hs
    obtain rfl := Option.some.inj hs
    have hbit := h.isProbe_ticket hb hp
    cases hprobe : p.probe with
    | true => simpa [Breaker.release, hbit, hprobe, (h.probe p hp hprobe).2.2.2] using Does.frees p hp hprobe
    | false => simpa [Breaker.release, hbit, hprobe] using Does.leaves p hp hprobe

lemma none_of_place (h : s.Sound) (hplace : s.b.probe = 0) : ∀ p ∈ s.passes, p.probe = false := by
  intro p hp
  by_contra hpp
  obtain ⟨-, -, hbit, hticket⟩ := h.probe p hp (by simpa using hpp)
  rw [← hticket, hplace] at hbit
  exact absurd hbit (by decide)

lemma closed_step (h : s.Sound) (hd : s.Does e s') (hopen : ¬ s'.isOpen) :
    s'.b.failures = failing s'.changes s'.log ∧ s'.b.failures < s'.b.threshold := by
  obtain ⟨hthreshold, hclock, -, hclosed, hlog, hprobe, hpass, -⟩ := h
  have hnew : ∀ p ∈ s.passes, failing (s.changes + 1) ((p.era, true) :: s.log) = 0 := by
    intro p hp
    apply failing_new
    grind
  cases hd <;> grind [failing, isOpen]

lemma probe_step (h : s.Sound) (hd : s.Does e s') :
    ∀ p ∈ s'.passes, p.probe → s'.isOpen ∧ p.era = s'.changes ∧ isProbe p.ticket ∧ s'.b.probe = p.ticket := by
  have hclock := h.clock
  have hprobe := h.probe
  have hnone := h.none_of_place
  have hrest := @h.rest
  cases hd <;> grind [isOpen, mem_of_mem_erase]

lemma pass_step (h : s.Sound) (hd : s.Does e s') :
    ∀ p ∈ s'.passes, p.probe = false → p.ticket = p.era ∧ p.era ≤ s'.changes ∧ (s'.isOpen → p.era ≠ s'.changes) := by
  have hepoch := h.epoch
  have hprobe := h.probe
  have hpass := h.pass
  cases hd <;> grind [isOpen, mem_of_mem_erase]

lemma step (h : s.Sound) (hd : s.Does e s') : s'.Sound where
  threshold := by
    have := h.threshold
    cases hd <;> exact this
  clock := by
    have := h.clock
    cases hd <;> simp only <;> omega
  epoch := by
    have := h.epoch
    cases hd <;> simp only <;> omega
  closed := h.closed_step hd
  log := by
    have hlog := h.log
    have hprobe := h.probe
    have hpass := h.pass
    cases hd <;> grind
  probe := h.probe_step hd
  pass := h.pass_step hd
  one := by
    have hone := h.one
    have herase := h.one_erase
    cases hd with
    | pass => simpa using hone
    | probe _ _ _ _ hplace _ =>
      have hnil : s.passes.filter Pass.probe = [] := by simpa using h.none_of_place hplace
      simp [hnil]
    | tick | refused => exact hone
    | _ => exact herase _

lemma stale (h : s.Sound) (hb : s.Bounded) (hp : p ∈ s.passes) (hera : p.era ≠ s.changes) (success : Bool) :
    s.b.record s.now p.ticket success = s.b ∧ s.b.release p.ticket = s.b := by
  have hbit := h.isProbe_ticket hb hp
  cases hprobe : p.probe with
  | true => exact absurd (h.probe p hp hprobe).2.1 hera
  | false =>
    obtain ⟨hticket, -, -⟩ := h.pass p hp hprobe
    rw [hprobe] at hbit
    simp [Breaker.record, Breaker.release, hbit, h.epoch, hticket ▸ hera]

lemma regular (h : s.Sound) (hb : s.Bounded) (hd : s.Does e s') : s.Regular e s' := by
  have hstale := @h.stale
  obtain ⟨hthreshold, hclock, -, hclosed, -, hprobe, -, hone⟩ := h
  constructor
  · intro hopen
    cases hd <;> grind [failing, isOpen]
  · intro hopen hnow
    cases hd <;> grind [isOpen, mem_of_mem_erase]
  · exact hone
  · intro hopen
    cases hd <;> grind [isOpen]
  · intro hopen'
    cases hd <;> grind [isOpen, Cools]
  · exact fun p hp hera success => hstale p hb hp hera success

end Sound

lemma sound_start {threshold : Int} (hthreshold : 1 ≤ threshold) (cooldown : Nat) {now : Nat} (hnow : 0 < now) :
    (start threshold cooldown now).Sound :=
  ⟨hthreshold, hnow, rfl, fun _ => ⟨rfl, hthreshold⟩, by simp [start], by simp [start], by simp [start], by simp [start]⟩

end Watch

end SqlMcpServer.Engine
