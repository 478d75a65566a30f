import SqlMcpServer.Lib.Transition
import Mathlib.Algebra.Group.Int.Defs
import Mathlib.Data.List.Nodup
import Mathlib.Logic.Function.Basic

/-!
# Leased scan batches

`x/leasing` over `x/configstore/batches.go`: one scan batch, the runs of it by any number of
processes, and the store they share.
-/

namespace SqlMcpServer.Leasing

inductive ItemState where
  | pending | running | done | failed | canceled
deriving DecidableEq, Repr

structure Item where
  state : ItemState := .pending
  error : String := ""
  attempts : Nat := 0
  notBefore : Int := 0
deriving DecidableEq, Repr

structure Batch where
  owner : Nat
  heartbeat : Int
  finished : Bool := false
  canceled : Bool := false
  items : String → Option Item

namespace Batch
variable (b : Batch)

/-- `ClaimBatch`: one conditional update. -/
def claim (owner : Nat) (staleBefore now : Int) : Option Batch :=
  if b.finished = false ∧ (b.owner = owner ∨ b.heartbeat < staleBefore) then some { b with owner, heartbeat := now }
  else none

/-- `beatOwned`: none is `ErrNotOwner`. -/
def beatOwned (owner : Nat) (now : Int) : Option Batch :=
  if b.owner = owner ∧ b.finished = false then some { b with heartbeat := now } else none

/-- `MoveItem`, in one transaction. -/
def moveItem (owner : Nat) (now : Int) (schema : String) (item : Item) (source : ItemState) : Option (Bool × Batch) :=
  (b.beatOwned owner now).map fun b =>
    match b.items schema with
    | some it =>
      if it.state = source then (true, { b with items := Function.update b.items schema (some item) }) else (false, b)
    | none => (false, b)

def ended (it : Item) : Item :=
  if it.state = .pending ∨ it.state = .running then { it with state := .canceled } else it

/-- `FinishBatch`, in one transaction. -/
def finish (owner : Nat) (now : Int) : Option Batch :=
  (b.beatOwned owner now).map fun b => { b with finished := true, items := fun x => (b.items x).map ended }

end Batch

/-- The batch scanned and the options of the runners. A schema is named once: it is a key. -/
structure Scan where
  schemas : List String
  nodup : schemas.Nodup
  attempts : Nat
  moveTries : Nat
  stale : Int
  backoff : Int

inductive Stage where
  | trying
  | writing
  /-- About to read back what an earlier try may have written. -/
  | rereading
  | losing
  | returned (moved : Bool)
deriving DecidableEq, Repr

/-- A call of `move`. `before` is the item as the run last knew it and `made` whether a write
of the call took effect; the code reads neither. -/
structure Move where
  before : Item
  item : Item
  source : ItemState
  tries : Nat := 1
  failed : Bool := false
  made : Bool := false
  stage : Stage := .trying
deriving DecidableEq, Repr

inductive Next where
  | work | retry | settled
deriving DecidableEq, Repr

/-- Where the item of a run is: not in its hands, in its queue, or with a worker. -/
inductive Worker where
  | idle
  | queued (it : Item)
  | moving (m : Move) (next : Next)
  | working (it : Item)
deriving DecidableEq, Repr

inductive Phase where
  /-- `Start`, its batch created. -/
  | created
  /-- `claim`, about to read the batch. -/
  | claimed
  | taken (items : List (String × Item)) (canceled : Bool)
  /-- The loop of `requeueRunning`, and a move of it. -/
  | requeuing (seen todo : List (String × Item))
  | requeueMove (schema : String) (m : Move) (seen todo : List (String × Item))
  | execute (items : List (String × Item))
  | waiting
  | finishing
  | ended
deriving DecidableEq, Repr

inductive Beat where
  | ended | ticking | checking | losing
deriving DecidableEq, Repr

/-- A run: its main goroutine, its workers by the schema they do, and its heartbeat.
`displaced` is whether another run claimed the batch from it, which the code does not know. -/
structure Run where
  phase : Phase := .ended
  workers : String → Worker := fun _ => .idle
  beat : Beat := .ended
  lost : Bool := false
  stopped : Bool := false
  displaced : Bool := false

structure State where
  batch : Batch
  runs : Nat → Run
  named : Nat

/-- How a call to the store ends: a lost answer is of a call that took effect. -/
inductive Reply where
  | answered | lost | failed
deriving DecidableEq, Repr

inductive Outcome where
  | done | failed | canceled
deriving DecidableEq, Repr

def Outcome.state : Outcome → ItemState
  | .done => .done
  | .failed => .failed
  | .canceled => .canceled

inductive Resolution where
  | work | gone | failed
deriving DecidableEq, Repr

/-- What is left to chance: the clock, the store's reply, whether the process or the ticker stops,
how an item's work ends (none when its context ended) and the resolver. -/
structure Choice where
  now : Int := 0
  reply : Reply := .answered
  down : Bool := false
  outcome : Option (Outcome × String) := none
  resolution : Resolution := .work

namespace State
variable (s : State)

def setRun (r : Nat) (run : Run) : State := { s with runs := Function.update s.runs r run }

def setPhase (r : Nat) (phase : Phase) : State := s.setRun r { s.runs r with phase }

def setWorker (r : Nat) (x : String) (w : Worker) : State :=
  s.setRun r { s.runs r with workers := Function.update (s.runs r).workers x w }

def setBeat (r : Nat) (beat : Beat) : State := s.setRun r { s.runs r with beat }

/-- `br.lost.Store(true); br.stop()` -/
def lose (r : Nat) : State := s.setRun r { s.runs r with lost := true, stopped := true }

def finishRun (r : Nat) : State := s.setRun r { s.runs r with phase := .ended, stopped := true }

def claim (scan : Scan) (r : Nat) (now : Int) : Option State :=
  (s.batch.claim r (now - scan.stale) now).map fun batch =>
    if s.batch.owner = r then { s with batch }
    else { s with batch, runs := Function.update s.runs s.batch.owner { s.runs s.batch.owner with displaced := true } }

def readItems (scan : Scan) : List (String × Item) :=
  scan.schemas.filterMap fun x => (s.batch.items x).map fun it => (x, it)

end State

section Steps
variable (scan : Scan)

def Move.again (m : Move) (down : Bool) : Move :=
  if down then { m with stage := .losing }
  else if m.tries < scan.moveTries then { m with tries := m.tries + 1, failed := true, stage := .trying }
  else { m with stage := .losing }

/-- A step of `move` on the item of `x` by run `r`. -/
def moveStep (s : State) (r : Nat) (x : String) (m : Move) (c : Choice) : Option (State × Move) :=
  match m.stage with
  | .trying => some (s, { m with stage := if (s.runs r).lost then .returned false else .writing })
  | .writing =>
    match s.batch.moveItem r c.now x m.item m.source with
    | none =>
      match c.reply with
      | .answered => some (s, { m with stage := .losing }) -- ErrNotOwner
      | _ => some (s, m.again scan c.down)
    | some (moved, batch) =>
      let wrote := { m with made := m.made || moved }
      match c.reply with
      | .answered =>
        some ({ s with batch }, { wrote with stage := if moved || !m.failed then .returned moved else .rereading })
      | .lost => some ({ s with batch }, wrote.again scan c.down)
      | .failed => some (s, m.again scan c.down)
  | .rereading =>
    match c.reply with
    | .answered => some (s, { m with stage := .returned (s.batch.items x = some m.item) })
    | _ => some (s, { m with stage := .losing })
  | .losing => some (s.lose r, { m with stage := .returned false })
  | .returned _ => none

/-- `runItem` from the queue on: the item is running, once more. -/
def startItem (it : Item) : Move :=
  { before := it, item := { state := .running, attempts := it.attempts + 1 }, source := .pending }

/-- `runItem` after the work: a failure is queued again, a few times. -/
def endItem (it : Item) (outcome : Outcome) (msg : String) (now : Int) : Worker :=
  if outcome = .failed ∧ it.attempts < scan.attempts then
    .moving { before := it, source := .running,
              item := { it with state := .pending, error := msg, notBefore := now + scan.backoff * 2 ^ (it.attempts - 1) } } .retry
  else .moving { before := it, source := .running, item := { it with state := outcome.state, error := msg } } .settled

def stepWorker (s : State) (r : Nat) (x : String) (c : Choice) : Option State :=
  match (s.runs r).workers x with
  | .idle => none
  | .queued it =>
    some (s.setWorker r x (if (s.runs r).stopped || c.down then .idle else .moving (startItem it) .work))
  | .moving m next =>
    match m.stage, next with
    | .returned true, .work => some (s.setWorker r x (.working m.item))
    | .returned true, .retry => some (s.setWorker r x (.queued m.item))
    | .returned _, _ => some (s.setWorker r x .idle)
    | _, _ => (moveStep scan s r x m c).map fun p => p.1.setWorker r x (.moving p.2 next)
  | .working it =>
    match c.outcome with
    | none => some (s.setWorker r x .idle)
    | some (outcome, msg) => some (s.setWorker r x (endItem scan it outcome msg c.now))

def queue (items : List (String × Item)) (x : String) : Worker :=
  match items.lookup x with
  | some it => if it.state = .pending then .queued it else .idle
  | none => .idle

def stepMain (s : State) (r : Nat) (c : Choice) : Option State :=
  match (s.runs r).phase with
  | .created =>
    match c.reply with
    | .answered => some (s.setPhase r (.execute (scan.schemas.map fun x => (x, {}))))
    | _ => some (s.setPhase r .ended)
  | .claimed =>
    match c.reply with
    | .answered => some (s.setPhase r (.taken (s.readItems scan) s.batch.canceled))
    | _ => some (s.setPhase r .ended)
  | .taken items canceled =>
    if canceled then some (s.setPhase r .finishing)
    else
      match c.resolution with
      | .gone => some (s.setPhase r .finishing)
      | .failed => some (s.setPhase r .ended)
      | .work => some (s.setPhase r (.requeuing [] items))
  | .requeuing seen [] => some (s.setPhase r (.execute seen))
  | .requeuing seen ((x, it) :: todo) =>
    if it.state = .running then
      some (s.setPhase r (.requeueMove x
        { before := it, item := { it with state := .pending }, source := .running } seen todo))
    else some (s.setPhase r (.requeuing (seen ++ [(x, it)]) todo))
  | .requeueMove x m seen todo =>
    match m.stage with
    | .returned true => some (s.setPhase r (.requeuing (seen ++ [(x, m.item)]) todo))
    | .returned false => some (s.setPhase r .ended)
    | _ => (moveStep scan s r x m c).map fun p => p.1.setPhase r (.requeueMove x p.2 seen todo)
  | .execute items =>
    some (s.setRun r { s.runs r with phase := .waiting, workers := queue items, beat := .ticking })
  | .waiting =>
    if ∀ x ∈ scan.schemas, (s.runs r).workers x = .idle then
      if c.down || (s.runs r).lost then some (s.finishRun r) else some (s.setPhase r .finishing)
    else none
  | .finishing =>
    match c.reply with
    | .failed => some (s.finishRun r)
    | _ => some ({ s with batch := (s.batch.finish r c.now).getD s.batch }.finishRun r)
  | .ended => none

def stepBeat (s : State) (r : Nat) (c : Choice) : Option State :=
  match (s.runs r).beat with
  | .ended => none
  | .ticking =>
    if (s.runs r).stopped && c.down then some (s.setBeat r .ended)
    else
      match c.reply with
      | .answered =>
        match s.claim scan r c.now with
        | some s => some (s.setBeat r .checking)
        | none => some (s.setBeat r .losing)
      | .lost => some ((s.claim scan r c.now).getD s)
      | .failed => some s
  | .checking =>
    if c.reply = .answered ∧ s.batch.canceled then
      some (s.setRun r { s.runs r with stopped := true, beat := .ended })
    else some (s.setBeat r .ticking)
  | .losing => some ((s.lose r).setBeat r .ended)

/-- `TakeOver`: a new run claims the batch. -/
def takeOver (s : State) (c : Choice) : State :=
  let named := { s with named := s.named + 1 }
  match c.reply with
  | .answered =>
    match s.claim scan s.named c.now with
    | some claimed => { claimed with named := s.named + 1 }.setPhase s.named .claimed
    | none => named
  | .lost => { (s.claim scan s.named c.now).getD s with named := s.named + 1 }
  | .failed => named

inductive Action where
  | worker (run : Nat) (schema : String) (c : Choice)
  | main (run : Nat) (c : Choice)
  | beat (run : Nat) (c : Choice)
  | takeOver (c : Choice)
  /-- `CancelBatch` and `Runner.Stop`. -/
  | cancel
  | stop (run : Nat)
  /-- The process of a run is gone. -/
  | crash (run : Nat)

def step (s : State) : Action → Option State
  | .worker r x c => stepWorker scan s r x c
  | .main r c => stepMain scan s r c
  | .beat r c => stepBeat scan s r c
  | .takeOver c => some (takeOver scan s c)
  | .cancel => some { s with batch := { s.batch with canceled := true } }
  | .stop r => some (s.setRun r { s.runs r with stopped := true })
  | .crash r => some (s.setRun r { s.runs r with phase := .ended, workers := fun _ => .idle, beat := .ended })

/-- `Start`: run 0 created the batch, its items pending. -/
def start (now : Int) : State where
  batch :=
    { owner := 0
      heartbeat := now
      items := fun x => if x ∈ scan.schemas then some {} else none }
  runs := Function.update (fun _ => {}) 0 { phase := .created }
  named := 1

abbrev Reachable (now : Int) : State → Prop := Transition.Reachable (step scan) (fun _ => True) (start scan now)

end Steps

end SqlMcpServer.Leasing
