import SqlMcpServer.Runtime
import Mathlib.Tactic

namespace SqlMcpServer.Runtime

open List

namespace Thread

/-- An App that never served, which the thread is to publish or close. -/
def next : Thread → Option Nat
  | .built n | .publishing n | .swapping _ n | .discarding n => some n
  | _ => none

/-- A snapshot that stopped serving, which the thread is to retire or close. -/
def old : Thread → Option Nat
  | .replaced n _ | .announcing n _ | .draining n | .closingOld n | .taken n | .barrier n | .lastDraining n
  | .closingLast n => some n
  | _ => none

def owns (t : Thread) : Option Nat := t.next.or t.old

/-- A snapshot the thread found serving. -/
def found : Thread → Option Nat
  | .leased n | .swapping n _ | .replaced n _ | .taken n => some n
  | _ => none

/-- A snapshot the thread knows to be retired. -/
def retired : Thread → Option Nat
  | .announcing n _ | .draining n | .closingOld n | .barrier n | .lastDraining n | .closingLast n => some n
  | _ => none

/-- A snapshot the thread knows to have no lease. -/
def drained : Thread → Option Nat
  | .closingOld n | .closingLast n => some n
  | _ => none

/-- When the call of an Acquire started. -/
def since : Thread → Option Nat
  | .acquiring k | .loaded _ k => some k
  | _ => none

def holdsPublish : Thread → Bool
  | .publishing _ | .swapping _ _ | .discarding _ | .replaced _ _ | .announcing _ _ | .unlocking => true
  | _ => false

end Thread

/-- What holds of the shared state where a thread stands. -/
@[mk_iff]
structure Fits (s : Shared) (t : Thread) : Prop where
  next : ∀ n ∈ t.next, some n ∉ s.history
  found : ∀ n ∈ t.found, some n ∈ s.history
  retired : ∀ n ∈ t.retired, s.retired n = true
  drained : ∀ n ∈ t.drained, s.refs n = 0
  since : ∀ k ∈ t.since, 1 ≤ k ∧ k ≤ s.history.length
  loaded : ∀ n k, t = .loaded n k → some n ∈ s.history.drop (k - 1)

lemma Fits.frame {s s' : Shared} {t : Thread} (h : Fits s t) {later : List (Option Nat)}
    (hhistory : s'.history = s.history ++ later) (hnext : ∀ n ∈ t.next, some n ∉ later)
    (hretired : ∀ n, s.retired n = true → s'.retired n = true) (hrefs : ∀ n ∈ t.drained, s'.refs n = 0) : Fits s' t where
  next := by
    intro n hn hmem
    rw [hhistory, mem_append] at hmem
    exact hmem.elim (h.next n hn) (hnext n hn)
  found := by
    intro n hn
    rw [hhistory]
    exact mem_append_left _ (h.found n hn)
  retired := fun n hn => hretired n (h.retired n hn)
  drained := hrefs
  since := by
    intro k hk
    have hrange := h.since k hk
    rw [hhistory, length_append]
    omega
  loaded := by
    intro n k ht
    have hrange := h.since k (by rw [ht]; rfl)
    rw [hhistory, drop_append_of_le_length (by omega)]
    exact mem_append_left _ (h.loaded n k ht)

/-- What holds at every moment. -/
structure Sound (s : State) : Prop where
  /-- Each App is served, in one thread's hand, or closed. -/
  owned : ∀ n, (if s.shared.current = some n then 1 else 0) + s.threads.countP (fun t => t.owns = some n) +
    s.shared.closes n = if n < s.shared.built then 1 else 0
  leases : ∀ n, s.shared.refs n = s.threads.countP fun t => t = .leased n
  fits : ∀ t ∈ s.threads, Fits s.shared t
  closed : ∀ n, 0 < s.shared.closes n → some n ∈ s.shared.history → s.shared.retired n = true
  drained : ∀ n, 0 < s.shared.closes n → s.shared.refs n = 0
  retired : ∀ n, s.shared.retired n = true → some n ∈ s.shared.history
  history : s.shared.history.getLast? = some s.shared.current
  served : ∀ n, some n ∈ s.shared.history → n < s.shared.built
  taken : none ∉ s.shared.history.dropLast
  publish : s.threads.countP (fun t => t.holdsPublish = true) = if s.shared.publish then 1 else 0

inductive Effect (s : Shared) : Thread → Shared → Prop where
  | locks {t : Thread} (reload publish : Bool) (draining : Int) : Effect s t { s with reload, publish, draining }
  | lease {n k : Nat} (h : s.retired n = false) : Effect s (.loaded n k) (s.count n 1)
  | release {n : Nat} : Effect s (.leased n) (s.count n (-1))
  | build : Effect s .building { s with built := s.built + 1 }
  | publish {old next : Nat} (h : s.current = some old) : Effect s (.swapping old next) (s.store (some next))
  | takeOut {old : Nat} (h : s.current = some old) : Effect s .closing (s.store none)
  | retire {t : Thread} {n : Nat} (hfound : n ∈ t.found) : Effect s t (s.retire n)
  | discard {n : Nat} : Effect s (.discarding n) (s.close n)
  | close {t : Thread} {n : Nat} (hdrained : n ∈ t.drained) (draining : Int) : Effect s t { s.close n with draining }

section Step
variable {s s' : Shared} {t : Thread} {ok : Bool} {ts : List Thread}

lemma act_effect (h : act s t ok = some (s', ts)) : Effect s t s' := by
  revert h
  fun_cases act s t ok <;> rintro ⟨⟩
  all_goals first
    | exact .locks _ _ _
    | exact .lease (Bool.eq_false_of_not_eq_true ‹_›)
    | exact .release
    | exact .build
    | exact .publish ‹_›
    | exact .takeOut ‹_›
    | exact .retire rfl
    | exact .discard
    | exact .close (t := .closingOld _) rfl _
    | exact .close (t := .closingLast _) rfl _

lemma act_owned (h : act s t ok = some (s', ts)) (n : Nat) :
    (if s'.current = some n then 1 else 0) + ts.countP (fun t => t.owns = some n) + s'.closes n +
      (if n < s.built then 1 else 0) =
    (if s.current = some n then 1 else 0) + (if t.owns = some n then 1 else 0) + s.closes n +
      if n < s'.built then 1 else 0 := by
  revert h
  fun_cases act s t ok <;> rintro ⟨⟩
  all_goals
    simp only [countP_cons, countP_nil, Thread.owns, Thread.next, Thread.old, Shared.count, Shared.retire,
      Shared.close, Shared.store, Option.or, decide_eq_true_eq, reduceCtorEq, Function.update_apply, Option.some.injEq]
  all_goals grind

lemma act_leases (h : act s t ok = some (s', ts)) (n : Nat) :
    s'.refs n + (if t = .leased n then 1 else 0) = s.refs n + ts.countP (fun t => t = .leased n) := by
  revert h
  fun_cases act s t ok <;> rintro ⟨⟩
  all_goals
    simp only [countP_cons, countP_nil, Shared.count, Shared.retire, Shared.close, Shared.store, decide_eq_true_eq,
      reduceCtorEq, Function.update_apply, Thread.leased.injEq]
  all_goals grind

lemma act_publish (h : act s t ok = some (s', ts)) (hheld : t.holdsPublish = true → s.publish = true) :
    ts.countP (fun t => t.holdsPublish = true) + (if s.publish then 1 else 0) =
      (if t.holdsPublish = true then 1 else 0) + if s'.publish then 1 else 0 := by
  revert h
  fun_cases act s t ok <;> rintro ⟨⟩
  all_goals
    simp only [countP_cons, countP_nil, Shared.count, Shared.retire, Shared.close, Shared.store, decide_eq_true_eq,
      reduceCtorEq, Thread.holdsPublish] at hheld ⊢
  all_goals grind [Thread.holdsPublish]

lemma act_fits (h : act s t ok = some (s', ts)) (hfits : Fits s t) (hlast : s.history.getLast? = some s.current)
    (hbuilt : some s.built ∉ s.history) (hrefs : ∀ n, 0 ≤ s.refs n) : ∀ t' ∈ ts, Fits s' t' := by
  have hcurrent : ∀ n, s.current = some n → some n ∈ s.history := by
    intro n hn
    rw [hn] at hlast
    exact mem_of_getLast? hlast
  have hnow : ∀ n k, s.current = some n → 1 ≤ k → k ≤ s.history.length → some n ∈ s.history.drop (k - 1) := by
    intro n k hn hpos hle
    apply mem_of_getLast?
    rw [getLast?_drop, if_neg (by omega), hlast, hn]
  have hsome : ∀ n k, some n ∈ s.history.drop k → some n ∈ s.history := fun n k => mem_of_mem_drop
  have hidle : ∀ n, s.refs n ≤ 0 → s.refs n = 0 := fun n hn => le_antisymm hn (hrefs n)
  revert h
  fun_cases act s t ok <;> rintro ⟨⟩
  all_goals
    simp only [forall_mem_cons, not_mem_nil, false_implies, implies_true, and_true]
  all_goals
    try split_ifs
  all_goals
    simp only [fits_iff, Thread.next, Thread.found, Thread.retired, Thread.drained, Thread.since, Option.mem_def, reduceCtorEq,
      Option.some.injEq, forall_eq', false_implies, implies_true, true_and, and_true, Thread.loaded.injEq, and_imp] at hfits ⊢
  all_goals grind [Shared.store, Shared.retire_retired, Shared.retire, Shared.count]

end Step

lemma Thread.retired_of_drained {t : Thread} {n : Nat} (h : n ∈ t.drained) : n ∈ t.retired := by
  cases t <;> first | exact h | cases h

lemma Thread.owns_of_next {t : Thread} {n : Nat} (h : n ∈ t.next) : t.owns = some n := by
  rw [owns, h]
  rfl

namespace Sound
variable {s : State}

lemma refs_eq_zero (h : Sound s) {n : Nat} (hn : some n ∉ s.shared.history) : s.shared.refs n = 0 := by
  rw [h.leases n, Nat.cast_eq_zero, Multiset.countP_eq_zero]
  rintro t ht rfl
  exact hn ((h.fits _ ht).found n rfl)

lemma refs_pos (h : Sound s) {n : Nat} (hn : .leased n ∈ s.threads) : 0 < s.shared.refs n := by
  rw [h.leases n, Nat.cast_pos, Multiset.countP_pos]
  exact ⟨_, hn, rfl⟩

lemma of_owns (h : Sound s) {t : Thread} {rest : Multiset Thread} {n : Nat} (hthreads : s.threads = t ::ₘ rest)
    (ht : t.owns = some n) :
    n < s.shared.built ∧ s.shared.closes n = 0 ∧ ∀ t' ∈ rest, t'.owns ≠ some n := by
  have howned := h.owned n
  rw [hthreads, Multiset.countP_cons, if_pos ht] at howned
  have hrest : rest.countP (fun t => t.owns = some n) = 0 := by
    split_ifs at howned <;> omega
  refine ⟨?_, ?_, fun t' ht' => Multiset.countP_eq_zero.mp hrest t' ht'⟩
  · by_contra hlt
    rw [if_neg hlt] at howned
    omega
  · split_ifs at howned <;> omega

lemma built_notMem (h : Sound s) : some s.shared.built ∉ s.shared.history := fun hmem => (h.served _ hmem).false

lemma current_mem (h : Sound s) : s.shared.current ∈ s.shared.history := mem_of_getLast? h.history

lemma none_notMem (h : Sound s) {n : Nat} (hn : s.shared.current = some n) : none ∉ s.shared.history := by
  intro hmem
  rw [← dropLast_append_getLast? _ h.history, mem_append, mem_singleton, hn] at hmem
  exact hmem.elim h.taken (by simp)

section Run
variable {s' : Shared} {t : Thread} {rest : Multiset Thread}

lemma fits_rest (h : Sound s) (hthreads : s.threads = t ::ₘ rest) (heffect : Effect s.shared t s') :
    ∀ t' ∈ rest, Fits s' t' := by
  intro t' ht'
  have hmem : t' ∈ s.threads := hthreads ▸ Multiset.mem_cons_of_mem ht'
  have hself : t ∈ s.threads := hthreads ▸ Multiset.mem_cons_self t rest
  have hfits := h.fits t' hmem
  have hnil : ∀ n ∈ t'.next, some n ∉ ([] : List (Option Nat)) := fun _ _ => not_mem_nil
  cases heffect with
  | locks => exact hfits.frame (append_nil _).symm hnil (fun _ hn => hn) hfits.drained
  | @lease n k hretired =>
    refine hfits.frame (append_nil _).symm hnil (fun _ hn => hn) ?_
    intro m hm
    -- A thread that knows its snapshot drained knows it retired.
    have hne : m ≠ n := by
      rintro rfl
      rw [hfits.retired m (Thread.retired_of_drained hm)] at hretired
      exact Bool.noConfusion hretired
    rw [Shared.count_refs, if_neg hne]
    exact hfits.drained m hm
  | @release n =>
    refine hfits.frame (append_nil _).symm hnil (fun _ hn => hn) ?_
    intro m hm
    have hne : m ≠ n := by
      rintro rfl
      exact (h.refs_pos hself).ne' (hfits.drained m hm)
    rw [Shared.count_refs, if_neg hne]
    exact hfits.drained m hm
  | build => exact hfits.frame (append_nil _).symm hnil (fun _ hn => hn) hfits.drained
  | @publish old next hold =>
    refine hfits.frame rfl ?_ (fun _ hn => hn) hfits.drained
    intro n hn hnew
    cases mem_singleton.mp hnew
    exact (h.of_owns hthreads rfl).2.2 t' ht' (Thread.owns_of_next hn)
  | takeOut hold =>
    refine hfits.frame rfl ?_ (fun _ hn => hn) hfits.drained
    intro n _ hnew
    cases mem_singleton.mp hnew
  | @retire t n hfound =>
    refine hfits.frame (append_nil _).symm hnil ?_ hfits.drained
    intro m hm
    rw [Shared.retire_retired, hm, ite_self]
  | discard => exact hfits.frame (append_nil _).symm hnil (fun _ hn => hn) hfits.drained
  | close => exact hfits.frame (append_nil _).symm hnil (fun _ hn => hn) hfits.drained

lemma closed_run (h : Sound s) (hthreads : s.threads = t ::ₘ rest) (heffect : Effect s.shared t s') (n : Nat)
    (hn : 0 < s'.closes n) (hmem : some n ∈ s'.history) : s'.retired n = true := by
  have hfits := h.fits t (hthreads ▸ Multiset.mem_cons_self t rest)
  cases heffect with
  | locks => exact h.closed n hn hmem
  | lease => exact h.closed n hn hmem
  | release => exact h.closed n hn hmem
  | build => exact h.closed n hn hmem
  | @publish old next hold =>
    rcases mem_append.mp hmem with hmem | hnew
    · exact h.closed n hn hmem
    · cases mem_singleton.mp hnew
      exact absurd (h.of_owns hthreads rfl).2.1 hn.ne'
  | takeOut hold =>
    rcases mem_append.mp hmem with hmem | hnew
    · exact h.closed n hn hmem
    · cases mem_singleton.mp hnew
  | retire _ =>
    rw [Shared.retire_retired, h.closed n hn hmem, ite_self]
  | @discard m =>
    by_cases hnm : n = m
    · subst hnm
      exact absurd hmem (hfits.next n rfl)
    · refine h.closed n ?_ hmem
      rwa [Shared.close_closes, if_neg hnm] at hn
  | @close t m hdrained draining =>
    by_cases hnm : n = m
    · subst hnm
      exact hfits.retired n (Thread.retired_of_drained hdrained)
    · refine h.closed n ?_ hmem
      have hn : 0 < (s.shared.close m).closes n := hn
      rwa [Shared.close_closes, if_neg hnm] at hn

lemma drained_run (h : Sound s) (hthreads : s.threads = t ::ₘ rest) (heffect : Effect s.shared t s') (n : Nat)
    (hn : 0 < s'.closes n) : s'.refs n = 0 := by
  have hself : t ∈ s.threads := hthreads ▸ Multiset.mem_cons_self t rest
  have hfits := h.fits t hself
  cases heffect with
  | locks => exact h.drained n hn
  | @lease m k hretired =>
    have hne : n ≠ m := by
      rintro rfl
      rw [h.closed n hn (mem_of_mem_drop (hfits.loaded n k rfl))] at hretired
      exact Bool.noConfusion hretired
    rw [Shared.count_refs, if_neg hne]
    exact h.drained n hn
  | @release m =>
    have hne : n ≠ m := by
      rintro rfl
      exact (h.refs_pos hself).ne' (h.drained n hn)
    rw [Shared.count_refs, if_neg hne]
    exact h.drained n hn
  | build => exact h.drained n hn
  | publish _ => exact h.drained n hn
  | takeOut _ => exact h.drained n hn
  | retire _ => exact h.drained n hn
  | @discard m =>
    by_cases hnm : n = m
    · subst hnm
      exact h.refs_eq_zero (hfits.next n rfl)
    · refine h.drained n ?_
      rwa [Shared.close_closes, if_neg hnm] at hn
  | @close t m hdrained draining =>
    by_cases hnm : n = m
    · subst hnm
      exact hfits.drained n hdrained
    · refine h.drained n ?_
      have hn : 0 < (s.shared.close m).closes n := hn
      rwa [Shared.close_closes, if_neg hnm] at hn

lemma retired_run (h : Sound s) (hthreads : s.threads = t ::ₘ rest) (heffect : Effect s.shared t s') (n : Nat)
    (hn : s'.retired n = true) : some n ∈ s'.history := by
  have hfits := h.fits t (hthreads ▸ Multiset.mem_cons_self t rest)
  cases heffect with
  | publish _ => exact mem_append_left _ (h.retired n hn)
  | takeOut _ => exact mem_append_left _ (h.retired n hn)
  | @retire t m hfound =>
    by_cases hnm : n = m
    · subst hnm
      exact hfits.found n hfound
    · rw [Shared.retire_retired, if_neg hnm] at hn
      exact h.retired n hn
  | _ => exact h.retired n hn

lemma history_run (h : Sound s) (heffect : Effect s.shared t s') : s'.history.getLast? = some s'.current := by
  cases heffect with
  | publish _ => exact getLast?_concat
  | takeOut _ => exact getLast?_concat
  | _ => exact h.history

lemma served_run (h : Sound s) (hthreads : s.threads = t ::ₘ rest) (heffect : Effect s.shared t s') (n : Nat)
    (hn : some n ∈ s'.history) : n < s'.built := by
  cases heffect with
  | build => exact (h.served n hn).trans (Nat.lt_succ_self _)
  | @publish old next hold =>
    rcases mem_append.mp hn with hn | hnew
    · exact h.served n hn
    · cases mem_singleton.mp hnew
      exact (h.of_owns hthreads rfl).1
  | takeOut hold =>
    rcases mem_append.mp hn with hn | hnew
    · exact h.served n hn
    · cases mem_singleton.mp hnew
  | _ => exact h.served n hn

lemma taken_run (h : Sound s) (heffect : Effect s.shared t s') : none ∉ s'.history.dropLast := by
  cases heffect with
  | publish hold =>
    simp only [Shared.store, dropLast_concat]
    exact h.none_notMem hold
  | takeOut hold =>
    simp only [Shared.store, dropLast_concat]
    exact h.none_notMem hold
  | _ => exact h.taken

end Run

lemma run (h : Sound s) {t : Thread} {ok : Bool} {s' : Shared} {ts : List Thread} {rest : Multiset Thread}
    (hact : act s.shared t ok = some (s', ts)) (hthreads : s.threads = t ::ₘ rest) : Sound ⟨s', ts + rest⟩ := by
  have heffect := act_effect hact
  have hself : t ∈ s.threads := hthreads ▸ Multiset.mem_cons_self t rest
  exact
    { owned := by
        intro n
        have hact := act_owned hact n
        have hcount := Pool.countP_run (fun t : Thread => t.owns = some n) t ts rest
        have howned := h.owned n
        rw [hthreads] at howned
        dsimp only
        omega
      leases := by
        intro n
        have hact := act_leases hact n
        have hcount := Pool.countP_run (fun t : Thread => t = .leased n) t ts rest
        have hleases := h.leases n
        rw [hthreads] at hleases
        dsimp only
        split_ifs at hact hcount <;> omega
      fits := by
        intro t' ht'
        rcases Multiset.mem_add.mp ht' with ht' | ht'
        · exact act_fits hact (h.fits t hself) h.history h.built_notMem (fun n => by rw [h.leases n]; omega) t' ht'
        · exact h.fits_rest hthreads heffect t' ht'
      closed := h.closed_run hthreads heffect
      drained := h.drained_run hthreads heffect
      retired := h.retired_run hthreads heffect
      history := h.history_run heffect
      served := h.served_run hthreads heffect
      taken := h.taken_run heffect
      publish := by
        have hpublish := h.publish
        have hheld : t.holdsPublish = true → s.shared.publish = true := by
          intro ht
          by_contra hfree
          rw [if_neg hfree, Multiset.countP_eq_zero] at hpublish
          exact hpublish t hself ht
        have hact := act_publish hact hheld
        have hcount := Pool.countP_run (fun t : Thread => t.holdsPublish = true) t ts rest
        rw [hthreads] at hpublish
        dsimp only
        omega }

lemma call (h : Sound s) (c : Call) : Sound ⟨s.shared, enter s.shared c ::ₘ s.threads⟩ where
  owned := by
    intro n
    have hidle : (enter s.shared c).owns ≠ some n := by cases c <;> exact (Option.some_ne_none n).symm
    dsimp only
    rw [Multiset.countP_cons, if_neg hidle]
    exact h.owned n
  leases := by
    intro n
    rw [Multiset.countP_cons, if_neg (by cases c <;> simp [enter])]
    exact h.leases n
  fits := by
    intro t ht
    rcases Multiset.mem_cons.mp ht with rfl | ht
    · have hpos : 1 ≤ s.shared.history.length := length_pos_of_mem h.current_mem
      cases c <;> simp [fits_iff, enter, Thread.next, Thread.found, Thread.retired, Thread.drained, Thread.since, hpos]
    · exact h.fits t ht
  closed := h.closed
  drained := h.drained
  retired := h.retired
  history := h.history
  served := h.served
  taken := h.taken
  publish := by
    rw [Multiset.countP_cons, if_neg (by cases c <;> simp [enter, Thread.holdsPublish])]
    exact h.publish

lemma start : Sound start where
  owned := by
    intro n
    simp only [Runtime.start, Multiset.countP_zero, Option.some.injEq, add_zero, Nat.lt_one_iff, @eq_comm _ 0 n]
  leases := fun _ => rfl
  fits := fun _ ht => absurd ht (Multiset.notMem_zero _)
  closed := fun _ hn => absurd hn (lt_irrefl 0)
  drained := fun _ _ => rfl
  retired := fun _ hn => Bool.noConfusion hn
  history := rfl
  served := by simp [Runtime.start]
  taken := by simp [Runtime.start]
  publish := rfl

end Sound

theorem sound_of_reachable {s : State} (h : Reachable s) : Sound s := by
  refine h.invariant Sound.start ?_
  intro s s' a hs _ _ hstep
  cases a with
  | run t ok =>
    obtain ⟨shared, ts, rest, hact, hthreads, rfl⟩ := Pool.step_run hstep
    exact hs.run hact hthreads
  | call c =>
    cases hstep
    exact hs.call c

namespace Thread

/-- The steps at most until the App in the thread's hand is closed. -/
def toClose : Thread → Nat
  | .built _ | .replaced _ _ | .taken _ => 4
  | .publishing _ | .announcing _ _ | .barrier _ => 3
  | .swapping _ _ | .draining _ | .lastDraining _ => 2
  | .discarding _ | .closingOld _ | .closingLast _ => 1
  | _ => 0

def left (n : Nat) (t : Thread) : Nat := if t.owns = some n then t.toClose else 0

/-- The steps at most until the publish lock is free. -/
def toUnlock : Thread → Nat
  | .publishing _ => 5
  | .swapping _ _ => 4
  | .replaced _ _ => 3
  | .announcing _ _ | .discarding _ => 2
  | .unlocking => 1
  | _ => 0

end Thread

section Progress
variable {s s' : Shared} {t : Thread} {ok : Bool} {ts : List Thread}

lemma act_left {n : Nat} (h : act s t ok = some (s', ts)) (hbuilt : n < s.built) (hcurrent : s.current ≠ some n) :
    (ts.map (Thread.left n)).sum + (if t.owns = some n then 1 else 0) ≤ t.left n := by
  revert h
  fun_cases act s t ok <;> rintro ⟨⟩
  all_goals
    simp only [map_cons, map_nil, sum_cons, sum_nil, Thread.left, Thread.owns, Thread.next, Thread.old,
      Thread.toClose, Option.or, reduceCtorEq, Option.some.injEq, if_false]
  all_goals grind [Thread.left, Thread.owns, Thread.next, Thread.old]

lemma act_toUnlock (h : act s t ok = some (s', ts)) (ht : t.holdsPublish = true) :
    (ts.map Thread.toUnlock).sum < t.toUnlock := by
  revert h ht
  fun_cases act s t ok <;> rintro ⟨⟩ ⟨⟩ <;> simp [Thread.toUnlock]

lemma act_of_holdsPublish (s : Shared) (ok : Bool) (ht : t.holdsPublish = true) : (act s t ok).isSome = true := by
  cases t <;> cases ht <;> simp only [act, Option.isSome_some] <;> split <;> rfl

lemma act_of_owns {n : Nat} (ok : Bool) (ht : t.owns = some n) (hrefs : s.refs n = 0) (hfree : s.publish = false) :
    (act s t ok).isSome = true := by
  cases t <;> cases ht <;> simp only [act, hrefs, hfree, lt_irrefl, if_false, Bool.false_eq_true, Option.isSome_some] <;>
    split <;> rfl

end Progress

lemma Effect.history_grows {s s' : Shared} {t : Thread} (h : Effect s t s') : s.history <+: s'.history := by
  cases h with
  | publish _ => exact prefix_append _ _
  | takeOut _ => exact prefix_append _ _
  | _ => exact prefix_rfl

namespace Sound
variable {s : State}

lemma exists_owns (h : Sound s) {n : Nat} (hbuilt : n < s.shared.built) (hcurrent : s.shared.current ≠ some n)
    (hopen : s.shared.closes n = 0) : ∃ t ∈ s.threads, t.owns = some n := by
  have howned := h.owned n
  rw [if_neg hcurrent, if_pos hbuilt, hopen] at howned
  exact Multiset.countP_pos.mp (by omega)

lemma exists_holdsPublish (h : Sound s) (hpublish : s.shared.publish = true) :
    ∃ t ∈ s.threads, t.holdsPublish = true := by
  have hcount := h.publish
  rw [if_pos hpublish] at hcount
  exact Multiset.countP_pos.mp (by omega)

lemma exists_step (h : Sound s) {n : Nat} (hbuilt : n < s.shared.built) (hcurrent : s.shared.current ≠ some n)
    (hopen : s.shared.closes n = 0) (hleases : .leased n ∉ s.threads) :
    ∃ t ∈ s.threads, (t.owns = some n ∨ t.holdsPublish = true) ∧ ∀ ok, (step s (.run t ok)).isSome = true := by
  have hstep : ∀ t ∈ s.threads, (∀ ok, (act s.shared t ok).isSome = true) →
      ∀ ok, (step s (.run t ok)).isSome = true := by
    intro t ht hact ok
    obtain ⟨r, hr⟩ := Option.isSome_iff_exists.mp (hact ok)
    obtain ⟨s', hs'⟩ : ∃ s', step s (.run t ok) = some s' := Pool.step_of_act ht hr
    exact Option.isSome_of_eq_some hs'
  have hrefs : s.shared.refs n = 0 := by
    rw [h.leases n, Nat.cast_eq_zero, Multiset.countP_eq_zero]
    rintro t ht rfl
    exact hleases ht
  cases hpublish : s.shared.publish with
  | true =>
    obtain ⟨t, ht, hholds⟩ := h.exists_holdsPublish hpublish
    exact ⟨t, ht, .inr hholds, hstep t ht fun ok => act_of_holdsPublish _ ok hholds⟩
  | false =>
    obtain ⟨t, ht, howns⟩ := h.exists_owns hbuilt hcurrent hopen
    exact ⟨t, ht, .inl howns, hstep t ht fun ok => act_of_owns ok howns hrefs hpublish⟩

lemma closes_eq_one (h : Sound s) {n : Nat} (hclosed : 0 < s.shared.closes n) :
    s.shared.closes n = 1 ∧ s.shared.current ≠ some n := by
  have howned := h.owned n
  constructor
  · split_ifs at howned <;> omega
  · intro hcurrent
    rw [if_pos hcurrent] at howned
    split_ifs at howned <;> omega

lemma eq_length_of_none (h : Sound s) {k : Nat} (hk : s.shared.history[k]? = some none) :
    k + 1 = s.shared.history.length ∧ s.shared.current = none := by
  obtain ⟨hlt, hget⟩ := List.getElem?_eq_some_iff.mp hk
  have hlast : k + 1 = s.shared.history.length := by
    by_contra hne
    apply h.taken
    have hlt' : k < s.shared.history.dropLast.length := by
      rw [length_dropLast]
      omega
    rw [← hget, ← getElem_dropLast hlt']
    exact getElem_mem hlt'
  refine ⟨hlast, ?_⟩
  have hhistory := h.history
  rw [getLast?_eq_getElem?, ← hlast, Nat.add_sub_cancel, hk] at hhistory
  exact (Option.some.inj hhistory).symm

end Sound

/-- At every moment of every interleaving: a leased App is open; an App is closed at most
once, and not while it serves; one that does not serve and is not leased is closed by steps
that are left, of the thread that has it and of the holder of the lock it may wait for, each
nearer its end with every step of its own. What `Acquire` is about to lease was current since
the call came in, and a call that came in after the snapshot was taken out fails. -/
theorem snapshot_lifetime {s : State} (h : Reachable s) :
    (∀ n, .leased n ∈ s.threads → s.shared.closes n = 0) ∧
    (∀ n, 0 < s.shared.closes n → s.shared.closes n = 1 ∧ s.shared.current ≠ some n) ∧
    (∀ n < s.shared.built, s.shared.current ≠ some n → s.shared.closes n = 0 → .leased n ∉ s.threads →
      ∃ t ∈ s.threads, (t.owns = some n ∨ t.holdsPublish = true) ∧ ∀ ok, (step s (.run t ok)).isSome = true) ∧
    (∀ n < s.shared.built, s.shared.current ≠ some n → ∀ t ok s', step s (.run t ok) = some s' →
      Pool.work (Thread.left n) s' + (if t.owns = some n then 1 else 0) ≤ Pool.work (Thread.left n) s) ∧
    (∀ t ok s', t.holdsPublish = true → step s (.run t ok) = some s' →
      Pool.work Thread.toUnlock s' < Pool.work Thread.toUnlock s) ∧
    s.shared.history.getLast? = some s.shared.current ∧
    (∀ a s', step s a = some s' → s.shared.history <+: s'.shared.history) ∧
    (∀ n k, .loaded n k ∈ s.threads → some n ∈ s.shared.history.drop (k - 1)) ∧
    ∀ k, s.shared.history[k - 1]? = some none → (∀ n, .loaded n k ∉ s.threads) ∧
      ∀ ok, act s.shared (.acquiring k) ok = some (s.shared, []) := by
  have hs := sound_of_reachable h
  refine ⟨?_, fun n => hs.closes_eq_one, fun n => hs.exists_step, ?_, ?_, hs.history, ?_, ?_, ?_⟩
  · intro n hn
    by_contra hclosed
    exact (hs.refs_pos hn).ne' (hs.drained n (Nat.pos_of_ne_zero hclosed))
  · intro n hbuilt hcurrent t ok s' hstep
    obtain ⟨shared, ts, hact, hwork⟩ := Pool.work_run (Thread.left n) hstep
    have hleft := act_left hact hbuilt hcurrent
    omega
  · intro t ok s' ht hstep
    obtain ⟨shared, ts, hact, hwork⟩ := Pool.work_run Thread.toUnlock hstep
    have hless := act_toUnlock hact ht
    omega
  · intro a s' hstep
    cases a with
    | run t ok =>
      obtain ⟨shared, ts, rest, hact, -, rfl⟩ := Pool.step_run hstep
      exact (act_effect hact).history_grows
    | call c =>
      cases hstep
      exact prefix_rfl
  · intro n k hn
    exact (hs.fits _ hn).loaded n k rfl
  · intro k hk
    obtain ⟨hlast, hcurrent⟩ := hs.eq_length_of_none hk
    constructor
    · intro n hn
      have hmem := (hs.fits _ hn).loaded n k rfl
      rw [drop_eq_getElem_cons (by omega), getElem_eq_iff .. |>.mpr hk, hlast, drop_length] at hmem
      simp at hmem
    · intro ok
      simp only [act, hcurrent]

/-- A reload that replaces the first App while a request holds it, and its end. -/
def reloadRun : List Action :=
  [.call .acquire, .run (.acquiring 1) true, .run (.loaded 0 1) true, .call .reload, .run .reload true, .run .checking true,
    .run .counting true, .run .building true, .run (.built 1) true, .run (.publishing 1) true, .run (.swapping 0 1) true,
    .run (.replaced 0 1) true, .run (.announcing 0 1) true, .run (.leased 0) true, .run (.draining 0) true,
    .run (.closingOld 0) true]

theorem snapshot_lifetime_reload :
    ∃ s, Reachable s ∧ 0 < s.shared.closes 0 ∧ s.shared.closes 0 = 1 ∧ s.shared.current ≠ some 0 := by
  have hrun : (Transition.run step start reloadRun).map (fun s => s.shared.closes 0) = some 1 := by decide
  obtain ⟨s, hs, hclosed⟩ := Option.map_eq_some_iff.mp hrun
  have hreach : Reachable s := Transition.reachable_of_run (.start trivial) hs
  have hpos : 0 < s.shared.closes 0 := by omega
  exact ⟨s, hreach, hpos, (snapshot_lifetime hreach).2.1 0 hpos⟩

end SqlMcpServer.Runtime
