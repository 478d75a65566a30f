import SqlMcpServer.Lib.Transition
import Mathlib.Data.List.Basic
import Mathlib.Logic.Function.Basic

/-!
# Shared executions

`singleflight.Do` runs a function once for the concurrent callers of a key.
-/

namespace SqlMcpServer.Engine

open List
open Option (map_eq_some_iff bind_eq_some_iff ite_none_right_eq_some)

/-- Where the goroutine of an execution is: the function runs or has ended, and of the deferred
steps after it the last one done. -/
inductive Phase where
  | running
  | ended
  | canceled
  | removed
  | closed
deriving DecidableEq, Repr

inductive Cause where
  | deadline
  | abandoned
  | ended
deriving DecidableEq, Repr

/-- A `call`. The deadline is its starter's; `ρ` are the pairs of a value and an error. -/
structure Execution (κ ρ : Type) where
  key : κ
  hasDeadline : Bool
  waiters : Int
  phase : Phase
  context : Option Cause
  result : Option ρ

inductive Stage (ρ : Type) where
  | waiting
  | left
  | got (r : ρ)
deriving DecidableEq

/-- A caller of `Do`, in `wait` on the execution it started or joined, or back from it. -/
structure Caller (κ ρ : Type) where
  key : κ
  execution : Nat
  stage : Stage ρ

structure Flights (κ ρ : Type) where
  executions : List (Execution κ ρ)
  m : κ → Option Nat
  callers : List (Caller κ ρ)

inductive Ending (ρ : Type) where
  | returned (r : ρ)
  | panicked (message : String)

inductive Own (ρ : Type) where
  | deadline
  | ends (ending : Ending ρ)
  | cancels
  | removes
  | closes

def Own.removal {ρ : Type} : Own ρ → Bool
  | .removes => true
  | _ => false

inductive FlightAction (κ ρ : Type) where
  | call (key : κ) (hasDeadline : Bool)
  | own (i : Nat) (a : Own ρ)
  | leaves (j : Nat)
  | returns (j : Nat)

variable {κ ρ : Type}

def Ending.outcome (recovered : String → ρ) : Ending ρ → ρ
  | .returned r => r
  | .panicked message => recovered message

namespace Execution

def cancel (e : Execution κ ρ) (c : Cause) : Execution κ ρ := { e with context := e.context.or (some c) }

def advance (recovered : String → ρ) (e : Execution κ ρ) : Own ρ → Option (Execution κ ρ)
  | .deadline => if e.hasDeadline then some (e.cancel .deadline) else none
  | .ends ending => if e.phase = .running then some { e with phase := .ended, result := some (ending.outcome recovered) } else none
  | .cancels => if e.phase = .ended then some { e.cancel .ended with phase := .canceled } else none
  | .removes => if e.phase = .canceled then some { e with phase := .removed } else none
  | .closes => if e.phase = .removed then some { e with phase := .closed } else none

def leave (e : Execution κ ρ) : Execution κ ρ :=
  if e.waiters - 1 = 0 then { e with waiters := e.waiters - 1 }.cancel .abandoned else { e with waiters := e.waiters - 1 }

def inPlace (e : Execution κ ρ) : Bool := e.phase = .running ∨ e.phase = .ended ∨ e.phase = .canceled

end Execution

/-- The caller is counted among the waiters. -/
def Caller.stays (c : Caller κ ρ) : Bool := match c.stage with
  | .left => false
  | _ => true

namespace Flights

def start : Flights κ ρ := ⟨[], fun _ => none, []⟩

section step
variable [DecidableEq κ] (recovered : String → ρ) (s : Flights κ ρ)

def delete (m : κ → Option Nat) (key : κ) (i : Nat) : κ → Option Nat :=
  if m key = some i then Function.update m key none else m

def join (key : κ) (i : Nat) (e : Execution κ ρ) : Flights κ ρ :=
  { s with executions := s.executions.set i { e with waiters := e.waiters + 1 }, callers := s.callers ++ [⟨key, i, .waiting⟩] }

def launch (key : κ) (hasDeadline : Bool) : Flights κ ρ where
  executions := s.executions ++ [⟨key, hasDeadline, 1, .running, none, none⟩]
  m := Function.update s.m key (some s.executions.length)
  callers := s.callers ++ [⟨key, s.executions.length, .waiting⟩]

def put (i : Nat) (a : Own ρ) (key : κ) (e : Execution κ ρ) : Flights κ ρ :=
  { s with executions := s.executions.set i e, m := if a.removal then delete s.m key i else s.m }

def depart (j : Nat) (c : Caller κ ρ) (e : Execution κ ρ) : Flights κ ρ where
  executions := s.executions.set c.execution e.leave
  m := if e.leave.waiters = 0 then delete s.m c.key c.execution else s.m
  callers := s.callers.set j { c with stage := .left }

def step : FlightAction κ ρ → Option (Flights κ ρ)
  | .call key hasDeadline =>
    match s.m key with
    | some i => s.executions[i]?.map (s.join key i)
    | none => some (s.launch key hasDeadline)
  | .own i a => do
    let e ← s.executions[i]?
    let e' ← e.advance recovered a
    some (s.put i a e.key e')
  | .leaves j => do
    let c ← s.callers[j]?
    let e ← s.executions[c.execution]?
    match c.stage with
    | .waiting => some (s.depart j c e)
    | _ => none
  | .returns j => do
    let c ← s.callers[j]?
    let e ← s.executions[c.execution]?
    let r ← e.result
    match c.stage, e.phase with
    | .waiting, .closed => some { s with callers := s.callers.set j { c with stage := .got r } }
    | _, _ => none

end step

def staying (callers : List (Caller κ ρ)) (i : Nat) : Nat := callers.countP fun c => c.execution = i && c.stays

/-- A caller waits for the execution of the key, whose goroutine has not removed it yet. -/
def Joinable (s : Flights κ ρ) (key : κ) (i : Nat) : Prop :=
  (∃ e, s.executions[i]? = some e ∧ e.key = key ∧ e.inPlace) ∧ ∃ c ∈ s.callers, c.execution = i ∧ c.stage = .waiting

end Flights

variable {a : Own ρ}

namespace Execution
variable {e e' : Execution κ ρ}

/-- What must hold when a context was cancelled. -/
def Allows (e : Execution κ ρ) : Cause → Prop
  | .deadline => e.hasDeadline = true
  | .abandoned => e.waiters = 0
  | .ended => e.phase ≠ .running

structure Sound (e : Execution κ ρ) : Prop where
  result : e.phase = .running ↔ e.result = none
  context : ∀ c, e.context = some c → e.Allows c

structure Moves (e e' : Execution κ ρ) : Prop where
  key : e'.key = e.key
  waiters : e'.waiters = e.waiters
  sound : e.Sound → e'.Sound
  closed : e.phase = .closed → e'.phase = .closed ∧ e'.result = e.result

lemma Allows.mono {c : Cause} (h : e.Allows c) (hdeadline : e'.hasDeadline = e.hasDeadline) (hwaiters : e'.waiters = e.waiters)
    (hphase : e.phase ≠ .running → e'.phase ≠ .running) : e'.Allows c := by
  cases c with
  | deadline => exact hdeadline.trans h
  | abandoned => exact hwaiters.trans h
  | ended => exact hphase h

lemma Sound.cancel (h : e.Sound) {c : Cause} (hc : e.Allows c) : (e.cancel c).Sound := by
  refine ⟨h.result, fun d hd => ?_⟩
  have hold : e.context = some d ∨ d = c := by
    cases hctx : e.context <;> simp_all [Execution.cancel]
  rcases hold with hold | rfl
  · exact (h.context d hold).mono rfl rfl id
  · exact hc.mono rfl rfl id

lemma Sound.phase (h : e.Sound) {p : Phase} (hran : e.phase ≠ .running) (hp : p ≠ .running) : Sound { e with phase := p } :=
  ⟨⟨fun hr => absurd hr hp, fun hnone => absurd (h.result.mpr hnone) hran⟩, fun c hc => (h.context c hc).mono rfl rfl fun _ => hp⟩

lemma advance_moves {recovered : String → ρ} (h : e.advance recovered a = some e') : e.Moves e' := by
  cases a with
  | deadline =>
    obtain ⟨hdeadline, h⟩ := ite_none_right_eq_some.mp h
    cases h
    exact ⟨rfl, rfl, fun hs => hs.cancel (c := .deadline) hdeadline, fun hp => ⟨hp, rfl⟩⟩
  | ends ending =>
    obtain ⟨hphase, h⟩ := ite_none_right_eq_some.mp h
    cases h
    refine ⟨rfl, rfl, fun hs => ⟨by simp, fun c hc => (hs.context c hc).mono rfl rfl fun _ => by simp⟩, fun hp => ?_⟩
    simp [hphase] at hp
  | cancels =>
    obtain ⟨hphase, h⟩ := ite_none_right_eq_some.mp h
    cases h
    have hran : e.phase ≠ .running := by simp [hphase]
    exact ⟨rfl, rfl, fun hs => (hs.cancel (c := .ended) hran).phase hran (by simp), fun hp => by simp [hphase] at hp⟩
  | removes =>
    obtain ⟨hphase, h⟩ := ite_none_right_eq_some.mp h
    cases h
    exact ⟨rfl, rfl, fun hs => hs.phase (by simp [hphase]) (by simp), fun hp => by simp [hphase] at hp⟩
  | closes =>
    obtain ⟨hphase, h⟩ := ite_none_right_eq_some.mp h
    cases h
    exact ⟨rfl, rfl, fun hs => hs.phase (by simp [hphase]) (by simp), fun _ => ⟨rfl, rfl⟩⟩

lemma advance_inPlace {recovered : String → ρ} (h : e.advance recovered a = some e') :
    e'.inPlace = (!a.removal && e.inPlace) := by
  cases a <;> obtain ⟨hphase, h⟩ := ite_none_right_eq_some.mp h <;> cases h <;> simp_all [inPlace, cancel, Own.removal]

lemma Sound.leave (h : e.Sound) (hpos : 0 < e.waiters) : e.leave.Sound := by
  have hrest : Sound { e with waiters := e.waiters - 1 } := by
    refine ⟨h.result, fun c hc => ?_⟩
    have hold := h.context c hc
    cases c with
    | deadline => exact hold
    | abandoned => exact absurd hold (Int.ne_of_gt hpos)
    | ended => exact hold
  rw [Execution.leave]
  split_ifs with hlast
  · exact hrest.cancel (c := .abandoned) hlast
  · exact hrest

lemma leave_eq (e : Execution κ ρ) : e.leave.key = e.key ∧ e.leave.waiters = e.waiters - 1 ∧ e.leave.phase = e.phase ∧
    e.leave.result = e.result := by
  rw [leave]
  split_ifs <;> exact ⟨rfl, rfl, rfl, rfl⟩

end Execution

namespace Flights
variable {s s' : Flights κ ρ} {i : Nat} {e e' : Execution κ ρ}

/-- The counts are the callers', the map holds the executions that can be joined, and callers wait
for executions of their keys. -/
structure Sound (s : Flights κ ρ) : Prop where
  each : ∀ (i : Nat) (e : Execution κ ρ), s.executions[i]? = some e → e.Sound ∧ e.waiters = staying s.callers i
  mapped : ∀ key i, s.m key = some i ↔ ∃ e, s.executions[i]? = some e ∧ e.key = key ∧ e.inPlace ∧ e.waiters ≠ 0
  callers : ∀ c ∈ s.callers, ∃ e, s.executions[c.execution]? = some e ∧ e.key = c.key ∧
    ∀ r, c.stage = .got r → e.phase = .closed ∧ e.result = some r

lemma sound_start : (start : Flights κ ρ).Sound where
  each := by simp [start]
  mapped := by simp [start]
  callers := by simp [start]

variable {c : Caller κ ρ}

lemma Sound.caller (h : s.Sound) (hc : c ∈ s.callers) (he : s.executions[c.execution]? = some e) :
    e.key = c.key ∧ ∀ r, c.stage = .got r → e.phase = .closed ∧ e.result = some r := by
  obtain ⟨x, hx, hcaller⟩ := h.callers c hc
  cases he.symm.trans hx
  exact hcaller

variable {key : κ}

lemma Sound.of_mapped (h : s.Sound) (he : s.executions[i]? = some e) :
    s.m key = some i ↔ e.key = key ∧ e.inPlace ∧ e.waiters ≠ 0 := by
  simp [h.mapped, he]

lemma Sound.write (h : s.Sound) (hexec : ∀ k, s'.executions[k]? = if k = i then some e else s.executions[k]?) (hsound : e.Sound)
    (hcount : ∀ k, (staying s'.callers k : Int) = if k = i then e.waiters else (staying s.callers k : Int))
    (hmap : ∀ key k, s'.m key = some k ↔ if k = i then e.key = key ∧ e.inPlace ∧ e.waiters ≠ 0 else s.m key = some k)
    (hhere : ∀ c ∈ s'.callers, c.execution = i → e.key = c.key ∧ ∀ r, c.stage = .got r → e.phase = .closed ∧ e.result = some r)
    (hthere : ∀ c ∈ s'.callers, c.execution ≠ i → c ∈ s.callers) : s'.Sound where
  each := by
    intro k x hx
    rw [hexec] at hx
    rw [hcount]
    split_ifs at hx ⊢ with hk
    · cases hx
      exact ⟨hsound, rfl⟩
    · exact h.each k x hx
  mapped := by
    intro key k
    rw [hmap, hexec]
    split_ifs with hk
    · simp
    · exact h.mapped key k
  callers := by
    intro c hc
    rw [hexec]
    split_ifs with hk
    · obtain ⟨hkey, hgot⟩ := hhere c hc hk
      exact ⟨e, rfl, hkey, hgot⟩
    · exact h.callers c (hthere c hc hk)

lemma getElem?_set (he : s.executions[i]? = some e) (k : Nat) :
    (s.executions.set i e')[k]? = if k = i then some e' else s.executions[k]? := by
  obtain ⟨hlt, -⟩ := List.getElem?_eq_some_iff.mp he
  rw [List.getElem?_set]
  grind

lemma staying_append (callers : List (Caller κ ρ)) (key : κ) (i k : Nat) :
    staying (callers ++ [⟨key, i, .waiting⟩]) k = staying callers k + if k = i then 1 else 0 := by
  simp [staying, Caller.stays, countP_cons, countP_append, eq_comm]

variable {j : Nat}

lemma staying_pos (hc : s.callers[j]? = some c) (hstage : c.stage = .waiting) :
    0 < staying s.callers c.execution := by
  apply countP_pos_iff.mpr
  exact ⟨c, mem_of_getElem? hc, by simp [Caller.stays, hstage]⟩

lemma staying_set (hc : s.callers[j]? = some c) (hstage : c.stage = .waiting) (stage : Stage ρ)
    (k : Nat) : staying (s.callers.set j { c with stage := stage }) k + (if k = c.execution then 1 else 0) =
      staying s.callers k + if k = c.execution ∧ Caller.stays { c with stage := stage } then 1 else 0 := by
  obtain ⟨hlt, hget⟩ := List.getElem?_eq_some_iff.mp hc
  have hpos := staying_pos hc hstage
  simp only [staying, countP_set hlt, hget] at hpos ⊢
  by_cases hk : k = c.execution
  · simp only [hk, Caller.stays, hstage] at hpos ⊢
    simp
    omega
  · simp [hk, Ne.symm hk]

lemma mem_callers_call (hc : c ∈ s.callers ++ [⟨key, i, .waiting⟩]) :
    c ∈ s.callers ∨ c.execution = i ∧ c.key = key ∧ ∀ r, c.stage ≠ .got r := by
  rcases mem_append.mp hc with hc | hc
  · exact .inl hc
  · cases mem_singleton.mp hc
    exact .inr ⟨rfl, rfl, fun r hr => nomatch hr⟩

lemma Sound.join (h : s.Sound) (hm : s.m key = some i) (he : s.executions[i]? = some e) : (s.join key i e).Sound := by
  obtain ⟨hsound, hcount⟩ := h.each i e he
  obtain ⟨hkey, hplace, hstay⟩ := (h.of_mapped he).mp hm
  refine h.write (getElem?_set he) ⟨hsound.result, fun c hc => ?_⟩ ?_ ?_ ?_ ?_
  · have hold := hsound.context c hc
    cases c with
    | deadline => exact hold
    | abandoned => exact absurd hold hstay
    | ended => exact hold
  · intro k
    rw [Flights.join, staying_append]
    split_ifs with hk
    · simp [hk, hcount]
    · simp
  · intro key' k
    split_ifs with hk
    · have hstay' : e.waiters + 1 ≠ 0 := by omega
      have hplace' : Execution.inPlace { e with waiters := e.waiters + 1 } = true := hplace
      simp [Flights.join, hk, h.of_mapped he, hplace, hplace', hstay, hstay']
    · rfl
  · intro c hc hi
    rcases mem_callers_call hc with hc | ⟨-, hsame, hnone⟩
    · exact h.caller (e := e) hc (hi ▸ he)
    · exact ⟨hkey.trans hsame.symm, fun r hr => absurd hr (hnone r)⟩
  · intro c hc hi
    exact (mem_callers_call hc).resolve_right fun hnew => hi hnew.1

section step
variable [DecidableEq κ] {recovered : String → ρ}

lemma Sound.launch (h : s.Sound) (hasDeadline : Bool) (hm : s.m key = none) : (s.launch key hasDeadline).Sound := by
  have hfresh : ∀ c ∈ s.callers, c.execution ≠ s.executions.length := by
    intro c hc hlen
    obtain ⟨x, hx, -⟩ := h.callers c hc
    simp [hlen] at hx
  refine h.write (i := s.executions.length) (e := ⟨key, hasDeadline, 1, .running, none, none⟩) ?_ ⟨by simp, by simp⟩ ?_ ?_ ?_ ?_
  · intro k
    rw [Flights.launch, getElem?_append]
    split_ifs <;> grind
  · intro k
    have hzero : staying s.callers s.executions.length = 0 := countP_eq_zero.mpr fun c hc => by simp [hfresh c hc]
    rw [Flights.launch, staying_append]
    split_ifs with hk
    · simp [hk, hzero]
    · simp
  · intro key' k
    have hunmapped : s.m key' ≠ some s.executions.length := by
      intro hm'
      obtain ⟨x, hx, -⟩ := (h.mapped key' _).mp hm'
      simp at hx
    by_cases hkey : key' = key
    · subst hkey
      split_ifs with hk
      · simp [Flights.launch, hk, Execution.inPlace]
      · simp [Flights.launch, hm, Ne.symm hk]
    · split_ifs with hk
      · simp [Flights.launch, hk, hkey, Ne.symm hkey, hunmapped]
      · simp [Flights.launch, hkey]
  · intro c hc hi
    rcases mem_callers_call hc with hc | ⟨-, hsame, hnone⟩
    · exact absurd hi (hfresh c hc)
    · exact ⟨hsame.symm, fun r hr => absurd hr (hnone r)⟩
  · intro c hc hi
    exact (mem_callers_call hc).resolve_right fun hnew => hi hnew.1

lemma Sound.delete_iff (h : s.Sound) (he : s.executions[i]? = some e) (key : κ) (k : Nat) :
    delete s.m e.key i key = some k ↔ s.m key = some k ∧ k ≠ i := by
  have honly : ∀ key, s.m key = some i → key = e.key := fun key hm => ((h.of_mapped he).mp hm).1.symm
  rw [delete]
  split_ifs with hm
  · by_cases hkey : key = e.key
    · subst hkey
      simp only [Function.update_self, hm]
      grind
    · rw [Function.update_of_ne hkey]
      grind
  · grind

lemma Sound.put (h : s.Sound) (he : s.executions[i]? = some e) (hstep : e.advance recovered a = some e') :
    (s.put i a e.key e').Sound := by
  obtain ⟨hsound, hcount⟩ := h.each i e he
  have hmoves := Execution.advance_moves hstep
  have hplace := Execution.advance_inPlace hstep
  refine h.write (getElem?_set he) (hmoves.sound hsound) ?_ ?_ ?_ (fun c hc _ => hc)
  · intro k
    split_ifs with hk
    · rw [hk, hmoves.waiters, hcount]
      rfl
    · rfl
  · intro key k
    have hmapped : s.m key = some i ↔ e.key = key ∧ e.inPlace ∧ e.waiters ≠ 0 := h.of_mapped he
    have hdelete := h.delete_iff he key k
    rw [hmoves.key, hmoves.waiters, hplace, Flights.put]
    cases a.removal <;> grind
  · intro c hc hi
    obtain ⟨hkey, hgot⟩ := h.caller hc (hi ▸ he)
    refine ⟨hmoves.key.trans hkey, fun r hr => ?_⟩
    obtain ⟨hclosed, hresult⟩ := hgot r hr
    obtain ⟨hclosed, hsame⟩ := hmoves.closed hclosed
    exact ⟨hclosed, hsame.trans hresult⟩

lemma Sound.depart (h : s.Sound) (hc : s.callers[j]? = some c) (he : s.executions[c.execution]? = some e)
    (hstage : c.stage = .waiting) : (s.depart j c e).Sound := by
  obtain ⟨hsound, hcount⟩ := h.each _ e he
  obtain ⟨hkey, -⟩ := h.caller (mem_of_getElem? hc) he
  obtain ⟨hkey', hwaiters, hphase, hresult⟩ := e.leave_eq
  have hpos : 0 < e.waiters := by
    rw [hcount]
    exact Int.natCast_pos.mpr (staying_pos hc hstage)
  have hplace : e.leave.inPlace = e.inPlace := by rw [Execution.inPlace, hphase, Execution.inPlace]
  refine h.write (getElem?_set he) (hsound.leave hpos) ?_ ?_ ?_ ?_
  · intro k
    have hset := staying_set hc hstage .left k
    simp only [Flights.depart, Caller.stays, Bool.false_eq_true, and_false, if_false] at hset ⊢
    split_ifs at hset ⊢ with hk
    · subst hk
      omega
    · omega
  · intro key k
    have hdelete := h.delete_iff he key k
    rw [hkey] at hdelete
    by_cases hlast : e.leave.waiters = 0
    · simp only [Flights.depart, if_pos hlast, hdelete]
      split_ifs with hk
      · simp [hk, hlast]
      · simp [hk]
    · simp only [Flights.depart, if_neg hlast]
      split_ifs with hk
      · have hstay : e.waiters ≠ 0 := by omega
        rw [hk, h.of_mapped he, hkey', hplace]
        simp [hlast, hstay]
      · rfl
  · intro d hd hi
    rcases mem_or_eq_of_mem_set hd with hd | rfl
    · rw [hkey', hphase, hresult]
      exact h.caller hd (hi ▸ he)
    · exact ⟨hkey'.trans hkey, fun r hr => nomatch hr⟩
  · intro d hd hi
    rcases mem_or_eq_of_mem_set hd with hd | rfl
    · exact hd
    · exact absurd rfl hi

omit [DecidableEq κ] in
lemma Sound.answer (h : s.Sound) {r : ρ} (hc : s.callers[j]? = some c)
    (he : s.executions[c.execution]? = some e) (hstage : c.stage = .waiting) (hphase : e.phase = .closed) (hr : e.result = some r) :
    Sound { s with callers := s.callers.set j { c with stage := .got r } } := by
  constructor
  · intro k x hx
    have hset := staying_set hc hstage (.got r) k
    simp only [Caller.stays, and_true] at hset
    rw [Nat.add_right_cancel hset]
    exact h.each k x hx
  · exact h.mapped
  · intro d hd
    rcases mem_or_eq_of_mem_set hd with hd | rfl
    · exact h.callers d hd
    · refine ⟨e, he, (h.caller (mem_of_getElem? hc) he).1, fun r' hr' => ?_⟩
      cases hr'
      exact ⟨hphase, hr⟩

lemma Sound.step {a : FlightAction κ ρ} (h : s.Sound) (hstep : s.step recovered a = some s') : s'.Sound := by
  cases a with
  | call key hasDeadline =>
    cases hm : s.m key with
    | some i =>
      simp only [Flights.step, hm] at hstep
      obtain ⟨e, he, rfl⟩ := map_eq_some_iff.mp hstep
      exact h.join hm he
    | none =>
      simp only [Flights.step, hm] at hstep
      cases hstep
      exact h.launch hasDeadline hm
  | own i a =>
    obtain ⟨e, he, hstep⟩ := bind_eq_some_iff.mp hstep
    obtain ⟨e', he', hstep⟩ := bind_eq_some_iff.mp hstep
    cases hstep
    exact h.put he he'
  | leaves j =>
    obtain ⟨c, hc, hstep⟩ := bind_eq_some_iff.mp hstep
    obtain ⟨e, he, hstep⟩ := bind_eq_some_iff.mp hstep
    split at hstep
    · cases hstep
      exact h.depart hc he ‹_›
    · cases hstep
  | returns j =>
    obtain ⟨c, hc, hstep⟩ := bind_eq_some_iff.mp hstep
    obtain ⟨e, he, hstep⟩ := bind_eq_some_iff.mp hstep
    obtain ⟨r, hr, hstep⟩ := bind_eq_some_iff.mp hstep
    split at hstep
    · cases hstep
      exact h.answer hc he ‹_› ‹_› hr
    · cases hstep

omit [DecidableEq κ] in
lemma Sound.mapped_iff (h : s.Sound) (key : κ) (i : Nat) : s.m key = some i ↔ s.Joinable key i := by
  rw [h.mapped]
  constructor
  · rintro ⟨e, he, hkey, hplace, hstay⟩
    refine ⟨⟨e, he, hkey, hplace⟩, ?_⟩
    rw [(h.each i e he).2] at hstay
    obtain ⟨c, hc, hcalls⟩ := countP_pos_iff.mp (Nat.pos_of_ne_zero (Int.natCast_ne_zero.mp hstay))
    obtain ⟨hi, hstays⟩ := Bool.and_eq_true_iff.mp hcalls
    simp only [decide_eq_true_eq] at hi
    refine ⟨c, hc, hi, ?_⟩
    obtain ⟨-, hgot⟩ := h.caller hc (hi ▸ he)
    cases hstage : c.stage with
    | waiting => rfl
    | left => simp [Caller.stays, hstage] at hstays
    | got r => simp [Execution.inPlace, (hgot r hstage).1] at hplace
  · rintro ⟨⟨e, he, hkey, hplace⟩, c, hc, rfl, hstage⟩
    obtain ⟨j, hj⟩ := getElem?_of_mem hc
    have hpos := staying_pos hj hstage
    refine ⟨e, he, hkey, hplace, ?_⟩
    rw [(h.each _ e he).2]
    omega

omit [DecidableEq κ] in
lemma Sound.all_left (h : s.Sound) (he : s.executions[i]? = some e) (hzero : e.waiters = 0) :
    ∀ c ∈ s.callers, c.execution = i → c.stage = .left := by
  intro c hc hi
  rw [(h.each i e he).2] at hzero
  have hnone := countP_eq_zero.mp (Int.natCast_eq_zero.mp hzero) c hc
  cases hstage : c.stage with
  | left => rfl
  | waiting => simp [hi, Caller.stays, hstage] at hnone
  | got r => simp [hi, Caller.stays, hstage] at hnone

/-- In every state calls reach: what the map holds, what callers got, what cancelled contexts,
what a new call waits for, and that who waits for an ended execution is answered. -/
structure Shared (recovered : String → ρ) (s : Flights κ ρ) : Prop where
  map : ∀ key i, s.m key = some i ↔ s.Joinable key i
  one : ∀ key i j, s.Joinable key i → s.Joinable key j → i = j
  got : ∀ c ∈ s.callers, ∃ e, s.executions[c.execution]? = some e ∧ e.key = c.key ∧ ∀ r, c.stage = .got r → e.result = some r
  context : ∀ (i : Nat) (e : Execution κ ρ), s.executions[i]? = some e →
    (e.context = some .deadline → e.hasDeadline = true) ∧
    (e.context = some .abandoned → ∀ c ∈ s.callers, c.execution = i → c.stage = .left) ∧
    (e.context = some .ended → e.phase ≠ .running)
  call : ∀ key hasDeadline s', s.step recovered (.call key hasDeadline) = some s' →
    ∃ i, s'.callers = s.callers ++ [⟨key, i, .waiting⟩] ∧
      (s.Joinable key i ∧ (∀ e, s.executions[i]? = some e → e.context ≠ some .abandoned) ∧ s'.executions.length = s.executions.length ∨
        (∀ k, ¬ s.Joinable key k) ∧ i = s.executions.length ∧
          s'.executions = s.executions ++ [⟨key, hasDeadline, 1, .running, none, none⟩])
  answered : ∀ (j : Nat) (c : Caller κ ρ) (e : Execution κ ρ), s.callers[j]? = some c → c.stage = .waiting →
    s.executions[c.execution]? = some e → e.phase ≠ .running →
    ∃ as s' r, as <:+ [.own c.execution .cancels, .own c.execution .removes, .own c.execution .closes, .returns j] ∧
      Transition.run (step recovered) s as = some s' ∧ e.result = some r ∧ s'.callers[j]? = some { c with stage := .got r }

lemma run_own (recovered : String → ρ) (he : s.executions[i]? = some e) (hstep : e.advance recovered a = some e')
    {as : List (FlightAction κ ρ)} {P : Flights κ ρ → Prop}
    (hrest : ∀ s₁ : Flights κ ρ, s₁.callers = s.callers → s₁.executions[i]? = some e' →
      ∃ s', Transition.run (step recovered) s₁ as = some s' ∧ P s') :
    ∃ s', Transition.run (step recovered) s (.own i a :: as) = some s' ∧ P s' := by
  obtain ⟨s', hrun, hP⟩ := hrest (s.put i a e.key e') rfl ((getElem?_set he _).trans (if_pos rfl))
  refine ⟨s', ?_, hP⟩
  rw [Transition.run, step]
  simp only [he, hstep, Option.bind_eq_bind, Option.bind_some]
  exact hrun

section answered
variable {j : Nat} {c : Caller κ ρ} {r : ρ} (hc : s.callers[j]? = some c) (hstage : c.stage = .waiting)
  (he : s.executions[c.execution]? = some e) (hr : e.result = some r)
include hc hstage he hr

lemma run_returns (hphase : e.phase = .closed) :
    ∃ s', Transition.run (step recovered) s [.returns j] = some s' ∧ s'.callers[j]? = some { c with stage := .got r } := by
  obtain ⟨hlt, -⟩ := List.getElem?_eq_some_iff.mp hc
  refine ⟨{ s with callers := s.callers.set j { c with stage := .got r } }, ?_, by simp [hlt]⟩
  simp [Transition.run, step, hc, he, hr, hstage, hphase]

lemma run_closes (hphase : e.phase = .removed) :
    ∃ s', Transition.run (step recovered) s [.own c.execution .closes, .returns j] = some s' ∧
      s'.callers[j]? = some { c with stage := .got r } :=
  have hstep : e.advance recovered .closes = some { e with phase := .closed } := if_pos hphase
  run_own recovered he hstep fun _ hcallers he' => run_returns (hcallers ▸ hc) hstage he' hr rfl

lemma run_removes (hphase : e.phase = .canceled) :
    ∃ s', Transition.run (step recovered) s [.own c.execution .removes, .own c.execution .closes, .returns j] = some s' ∧
      s'.callers[j]? = some { c with stage := .got r } :=
  have hstep : e.advance recovered .removes = some { e with phase := .removed } := if_pos hphase
  run_own recovered he hstep fun _ hcallers he' => run_closes (hcallers ▸ hc) hstage he' hr rfl

lemma run_cancels (hphase : e.phase = .ended) :
    ∃ s', Transition.run (step recovered) s
      [.own c.execution .cancels, .own c.execution .removes, .own c.execution .closes, .returns j] = some s' ∧
      s'.callers[j]? = some { c with stage := .got r } :=
  have hstep : e.advance recovered .cancels = some { e.cancel .ended with phase := .canceled } := if_pos hphase
  run_own recovered he hstep fun _ hcallers he' => run_removes (hcallers ▸ hc) hstage he' hr rfl

end answered

lemma Sound.shared (h : s.Sound) : s.Shared recovered where
  map := h.mapped_iff
  one := by
    intro key i j hi hj
    exact Option.some.inj (((h.mapped_iff key i).mpr hi).symm.trans ((h.mapped_iff key j).mpr hj))
  got := by
    intro c hc
    obtain ⟨e, he, hkey, hgot⟩ := h.callers c hc
    exact ⟨e, he, hkey, fun r hr => (hgot r hr).2⟩
  context := by
    intro i e he
    have hcontext := (h.each i e he).1.context
    exact ⟨hcontext .deadline, fun hctx => h.all_left he (hcontext .abandoned hctx), hcontext .ended⟩
  call := by
    intro key hasDeadline s' hstep
    cases hm : s.m key with
    | some i =>
      simp only [Flights.step, hm] at hstep
      obtain ⟨e, he, rfl⟩ := map_eq_some_iff.mp hstep
      refine ⟨i, rfl, .inl ⟨(h.mapped_iff key i).mp hm, ?_, by simp [Flights.join]⟩⟩
      intro y hy hctx
      exact ((h.of_mapped hy).mp hm).2.2 ((h.each i y hy).1.context _ hctx)
    | none =>
      simp only [Flights.step, hm] at hstep
      cases hstep
      refine ⟨_, rfl, .inr ⟨fun k hk => ?_, rfl, rfl⟩⟩
      cases hm.symm.trans ((h.mapped_iff key k).mpr hk)
  answered := by
    intro j c e hc hstage he hran
    obtain ⟨r, hr⟩ := Option.ne_none_iff_exists'.mp fun hnone => hran ((h.each _ e he).1.result.mpr hnone)
    cases hphase : e.phase with
    | running => exact absurd hphase hran
    | ended =>
      obtain ⟨s', hrun, hgot⟩ := run_cancels hc hstage he hr hphase
      exact ⟨_, s', r, suffix_refl _, hrun, hr, hgot⟩
    | canceled =>
      obtain ⟨s', hrun, hgot⟩ := run_removes hc hstage he hr hphase
      exact ⟨_, s', r, suffix_cons _ _, hrun, hr, hgot⟩
    | removed =>
      obtain ⟨s', hrun, hgot⟩ := run_closes hc hstage he hr hphase
      exact ⟨_, s', r, ⟨[_, _], rfl⟩, hrun, hr, hgot⟩
    | closed =>
      obtain ⟨s', hrun, hgot⟩ := run_returns hc hstage he hr hphase
      exact ⟨_, s', r, ⟨[_, _, _], rfl⟩, hrun, hr, hgot⟩

/-- Over every interleaving of callers coming and leaving, executions ending and deadlines. -/
theorem executions_shared (recovered : String → ρ) (s : Flights κ ρ)
    (h : Transition.Reachable (step recovered) (fun _ => True) start s) : s.Shared recovered := by
  have hsound : s.Sound := h.invariant sound_start fun _ _ _ hs _ _ hstep => hs.step hstep
  exact hsound.shared

end step

/-- The caller of a key leaves, and the next starts an execution of its own; the first ends, and
its removal leaves the second's entry. -/
def replaced : List (FlightAction String String) :=
  [.call "k" false, .leaves 0, .call "k" false, .own 0 (.ends (.returned "late")), .own 0 .cancels, .own 0 .removes]

theorem executions_shared_replaced :
    ∃ s, Transition.run (step id) start replaced = some s ∧ s.m "k" = some 1 ∧ s.Shared id := by
  have hm : (Transition.run (step id) start replaced).map (·.m "k") = some (some 1) := by decide
  obtain ⟨s, hs, hm⟩ := map_eq_some_iff.mp hm
  exact ⟨s, hs, hm, executions_shared id s (Transition.reachable_of_run (.start trivial) hs)⟩

end Flights
end SqlMcpServer.Engine
