import SqlMcpServer.Lib.Pool
import Mathlib.Logic.Function.Basic

/-!
# Snapshots of the runtime

`Runtime` (x/bootstrap/runtime.go) serves one App at a time.
-/

namespace SqlMcpServer.Runtime

def maxRetiring : Int := 3

structure Shared where
  current : Option Nat
  refs : Nat → Int
  retired : Nat → Bool
  /-- `r.reload` and `r.publish` are locked. -/
  reload : Bool
  publish : Bool
  /-- Replaced snapshots not closed yet. -/
  draining : Int
  /-- How many Apps were built, and how often each was closed. -/
  built : Nat
  closes : Nat → Nat
  /-- What `current` was from the start on, each value once. -/
  history : List (Option Nat)

inductive Thread where
  /-- `Acquire`, about to load the current snapshot; `since` values of the history precede
  the call or are current as it starts. -/
  | acquiring (since : Nat)
  /-- `Acquire`, about to lock the snapshot it loaded. -/
  | loaded (snapshot since : Nat)
  | leased (snapshot : Nat)
  | reload
  | checking
  | counting
  | building
  /-- An App is built; about to lock `r.publish`. -/
  | built (next : Nat)
  | publishing (next : Nat)
  /-- About to swap the snapshot it loaded. -/
  | swapping (old next : Nat)
  /-- The runtime closed meanwhile: about to close what was built. -/
  | discarding (next : Nat)
  /-- Published; about to mark the old snapshot retired. -/
  | replaced (old next : Nat)
  /-- Runs the callbacks; about to fork the retirement of the old snapshot. -/
  | announcing (old next : Nat)
  | unlocking
  | leaving
  /-- The task of `retire`, waiting for the leases; then about to close the App. The rollbacks
  between the two are Acquires like any other. -/
  | draining (old : Nat)
  | closingOld (old : Nat)
  /-- `CloseContext`, about to take the current snapshot out. -/
  | closing
  /-- About to mark what it took out retired, and to fork the rest. -/
  | taken (old : Nat)
  /-- The task of `CloseContext`, waiting for a reload past its build, then for the leases. -/
  | barrier (old : Nat)
  | lastDraining (old : Nat)
  | closingLast (old : Nat)
deriving DecidableEq, Repr

namespace Shared

def count (s : Shared) (snapshot : Nat) (change : Int) : Shared :=
  { s with refs := Function.update s.refs snapshot (s.refs snapshot + change) }

def retire (s : Shared) (snapshot : Nat) : Shared := { s with retired := Function.update s.retired snapshot true }

def close (s : Shared) (app : Nat) : Shared := { s with closes := Function.update s.closes app (s.closes app + 1) }

def store (s : Shared) (current : Option Nat) : Shared := { s with current, history := s.history ++ [current] }

lemma count_refs (s : Shared) (n m : Nat) (change : Int) :
    (s.count n change).refs m = if m = n then s.refs n + change else s.refs m := Function.update_apply ..

lemma retire_retired (s : Shared) (n m : Nat) : (s.retire n).retired m = if m = n then true else s.retired m :=
  Function.update_apply ..

lemma close_closes (s : Shared) (n m : Nat) : (s.close n).closes m = if m = n then s.closes n + 1 else s.closes m :=
  Function.update_apply ..

end Shared

/-- A thread's next step; none where it waits. `ok` is whether a build succeeds. -/
def act (s : Shared) (t : Thread) (ok : Bool) : Option (Shared × List Thread) :=
  match t with
  | .acquiring since =>
    match s.current with
    | none => some (s, []) -- ErrRuntimeClosed
    | some snapshot => some (s, [.loaded snapshot since])
  | .loaded snapshot since =>
    if s.retired snapshot then
      -- `cond.Wait` while it is still current.
      if s.current = some snapshot then none else some (s, [.acquiring since])
    else some (s.count snapshot 1, [.leased snapshot])
  | .leased snapshot => some (s.count snapshot (-1), [])
  | .reload => if s.reload then none else some ({ s with reload := true }, [.checking])
  | .checking => some (s, [if s.current = none then .leaving else .counting])
  | .counting => some (s, [if maxRetiring ≤ s.draining then .leaving else .building])
  | .building => if ok then some ({ s with built := s.built + 1 }, [.built s.built]) else some (s, [.leaving])
  | .built next => if s.publish then none else some ({ s with publish := true }, [.publishing next])
  | .publishing next =>
    match s.current with
    | none => some (s, [.discarding next])
    | some old => some (s, [.swapping old next])
  | .swapping old next =>
    if s.current = some old then some (s.store (some next), [.replaced old next]) else some (s, [.discarding next])
  | .discarding next => some (s.close next, [.unlocking])
  | .replaced old next => some (s.retire old, [.announcing old next])
  | .announcing old _ => some ({ s with draining := s.draining + 1 }, [.draining old, .unlocking])
  | .unlocking => some ({ s with publish := false }, [.leaving])
  | .leaving => some ({ s with reload := false }, [])
  | .draining old => if 0 < s.refs old then none else some (s, [.closingOld old])
  | .closingOld old => some ({ s.close old with draining := s.draining - 1 }, [])
  | .closing =>
    match s.current with
    | none => some (s, [])
    | some old => some (s.store none, [.taken old])
  | .taken old => some (s.retire old, [.barrier old])
  | .barrier old => if s.publish then none else some (s, [.lastDraining old])
  | .lastDraining old => if 0 < s.refs old then none else some (s, [.closingLast old])
  | .closingLast old => some (s.close old, [])

inductive Call where
  | acquire
  | reload
  | close
deriving DecidableEq, Repr

def enter (s : Shared) : Call → Thread
  | .acquire => .acquiring s.history.length
  | .reload => .reload
  | .close => .closing

abbrev State := Pool.State Shared Thread
abbrev Action := Pool.Action Thread Bool Call

def step : State → Action → Option State := Pool.step act enter

/-- `NewRuntimeWithBuilder`: the first App serves. -/
def start : State where
  shared :=
    { current := some 0
      refs _ := 0
      retired _ := false
      reload := false
      publish := false
      draining := 0
      built := 1
      closes _ := 0
      history := [some 0] }
  threads := 0

abbrev Reachable : State → Prop := Transition.Reachable step (fun _ => True) start

end SqlMcpServer.Runtime
