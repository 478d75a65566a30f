import SqlMcpServer.Cost
import SqlMcpServer.Workspace.Value
import Mathlib.Tactic.Linarith

/-!
# Plans read from MySQL's EXPLAIN

`ParseExplain` (x/providers/mysql/explain.go) keeps the worst access of the document's tables, the
largest row estimate and the largest table read whole; `Estimate.Evaluate` judges that.
-/

namespace SqlMcpServer.Cost

open List
open Workspaces (Value Fields)

/-- `scanRisk` -/
def risk : ScanType → Nat
  | .point => 0
  | .index => 1
  | .seq => 2
  | .unknown => 3
  | .full => 4

def worse (a b : ScanType) : Bool := risk b < risk a

def mysqlScanType (access : String) : ScanType :=
  if access = "ALL" then .full
  else if access ∈ ["index", "ref", "range", "index_merge", "fulltext"] then .index
  else if access ∈ ["const", "eq_ref", "system", "unique_subquery"] then .point
  else .unknown

lemma mysqlScanType_ne_seq (access : String) : mysqlScanType access ≠ .seq := by
  unfold mysqlScanType
  split_ifs <;> simp

/-- `int64(rows)` of a float64: its integer part, where int64 has it. -/
def int64OfBits (outOfRange : UInt64 → Int) (bits : UInt64) : Int :=
  let exponent := (bits >>> 52 &&& 0x7ff).toNat
  let mantissa := 2 ^ 52 + (bits &&& 0xfffffffffffff).toNat
  let whole : Nat := if 1075 ≤ exponent then mantissa * 2 ^ (exponent - 1075) else mantissa / 2 ^ (1075 - exponent)
  if 1023 + 63 ≤ exponent then outOfRange bits
  else if bits >>> 63 = 1 then -(whole : Int) else whole

section Document
variable (outOfRange : UInt64 → Int)

def textAt (node : Fields) (key : String) : Option String :=
  match node.property key with
  | some (.text s) => some s
  | _ => none

def flagAt (node : Fields) (key : String) : Bool :=
  match node.property key with
  | some (.bool b) => b
  | _ => false

def rowsAt (node : Fields) (key : String) : Option Int :=
  match node.property key with
  | some (.num bits) => some (int64OfBits outOfRange bits)
  | _ => none

def noTableRead (message : String) : Bool :=
  ["Impossible WHERE", "Impossible HAVING", "no matching row in const table", "No matching min/max row",
    "Select tables optimized away", "Zero limit", "No tables used", "Impossible ON condition"].any
    fun m => m.toList.isPrefixOf message.toList

structure Facts where
  sort : Bool := false
  temp : Bool := false
  readsNothing : Bool := false
  insert : Bool := false
  access : Option String := none
  examined : Option Int := none
  produced : Option Int := none
deriving DecidableEq, Repr

def factsOf (node : Fields) : Facts where
  sort := flagAt node "using_filesort"
  temp := flagAt node "using_temporary_table"
  readsNothing := (textAt node "message").any noTableRead
  insert := flagAt node "insert"
  access := textAt node "access_type"
  examined := rowsAt outOfRange node "rows_examined_per_scan"
  produced := rowsAt outOfRange node "rows_produced_per_join"

def Facts.scan (f : Facts) : Option ScanType := if f.insert then none else f.access.map mysqlScanType

structure Reading where
  plan : Plan := { scanType := .unknown, statsFresh := true }
  tables : Nat := 0
  readsNothing : Bool := false
  fullScans : Nat := 0
  sized : Nat := 0
deriving DecidableEq, Repr

def atLeast (rows : Option Int) (count : Int) : Int :=
  match rows with
  | some r => max count r
  | none => count

def worst (tables : Nat) (kept scan : ScanType) : ScanType :=
  if tables = 0 ∨ worse scan kept then scan else kept

def Reading.access (r : Reading) (f : Facts) (scan : ScanType) : Reading :=
  { r with
    plan :=
      { r.plan with
        scanType := worst r.tables r.plan.scanType scan
        estimatedRows := atLeast f.produced (atLeast f.examined r.plan.estimatedRows)
        -- `sizeFullScan`
        tableRows := if scan = .full then atLeast f.examined r.plan.tableRows else r.plan.tableRows }
    tables := r.tables + 1
    fullScans := if scan = .full then r.fullScans + 1 else r.fullScans
    sized := if scan = .full ∧ f.examined.isSome then r.sized + 1 else r.sized }

/-- What a node says beside its access: `noteNode`, and that an INSERT reads nothing. -/
def Reading.note (r : Reading) (f : Facts) : Reading :=
  { r with
    plan := { r.plan with hasSort := r.plan.hasSort || f.sort, hasTempTable := r.plan.hasTempTable || f.temp }
    readsNothing := r.readsNothing || f.readsNothing || f.insert }

def Reading.visit (r : Reading) (f : Facts) : Reading :=
  match f.scan with
  | some scan => (r.note f).access f scan
  | none => r.note f

mutual
/-- The objects `eachJSONObject` calls its function for. -/
def objects : Value → List Fields
  | .object fields => fields :: objectsOfFields fields
  | .list els => objectsOfElements els
  | .null | .bool _ | .num _ | .text _ => []

def objectsOfElements : List Value → List Fields
  | [] => []
  | el :: rest => objects el ++ objectsOfElements rest

def objectsOfFields : List (String × Value) → List Fields
  | [] => []
  | (_, el) :: rest => objects el ++ objectsOfFields rest
end

def factsIn (block : Fields) : List Facts := ((objects (.object block)).map (factsOf outOfRange)).filter (· ≠ {})

def Reading.finish (r : Reading) : Plan :=
  let plan := { r.plan with tableSized := 0 < r.fullScans && r.sized == r.fullScans }
  -- The optimizer settled the query without reading a table.
  if r.tables = 0 ∧ r.readsNothing then { plan with scanType := .point, estimatedRows := 0 } else plan

/-- `ParseExplain` of a document whose `query_block` is that object; none when it does not
parse or has no such object. -/
def parseExplain (block : Option Fields) : Plan :=
  match block with
  | none => {}
  | some block => (((objects (.object block)).map (factsOf outOfRange)).foldl Reading.visit {}).finish

end Document

/-- `Estimate.Evaluate`: judges a plan the caller obtained itself. -/
def Estimate.evaluate (e : Estimate) (plan : Plan) (failed : Bool) : Decision :=
  let plan := smallTable (if failed then {} else plan) e.threshold
  e.evaluatePlan plan failed (scorePlan plan) e.threshold

lemma atLeast_comm (a b : Option Int) (count : Int) : atLeast a (atLeast b count) = atLeast b (atLeast a count) := by
  cases a <;> cases b <;> simp only [atLeast]
  exact max_right_comm _ _ _

lemma worst_comm (tables : Nat) (kept a b : ScanType) :
    worst (tables + 1) (worst tables kept a) b = worst (tables + 1) (worst tables kept b) a := by
  by_cases hzero : tables = 0
  · subst hzero
    cases kept <;> cases a <;> cases b <;> rfl
  · simp only [worst, hzero, Nat.succ_ne_zero, false_or]
    cases kept <;> cases a <;> cases b <;> rfl

lemma access_comm (r : Reading) (a b : Facts) (scanA scanB : ScanType) :
    (r.access a scanA).access b scanB = (r.access b scanB).access a scanA := by
  have hrows : ∀ n, atLeast b.produced (atLeast b.examined (atLeast a.produced (atLeast a.examined n))) =
      atLeast a.produced (atLeast a.examined (atLeast b.produced (atLeast b.examined n))) := by
    intro n
    rw [atLeast_comm b.examined, atLeast_comm b.produced, atLeast_comm b.examined a.examined,
      atLeast_comm b.produced a.examined]
  simp only [Reading.access, worst_comm r.tables r.plan.scanType scanA scanB, hrows]
  by_cases ha : scanA = .full <;> by_cases hb : scanB = .full <;> simp [ha, hb, atLeast_comm a.examined b.examined]
  split_ifs <;> rfl

lemma note_comm (r : Reading) (a b : Facts) : (r.note a).note b = (r.note b).note a := by
  simp [Reading.note, Bool.or_comm, Bool.or_left_comm]

lemma access_note (r : Reading) (a b : Facts) (scan : ScanType) : (r.access a scan).note b = (r.note b).access a scan := rfl

instance : RightCommutative Reading.visit where
  right_comm r a b := by
    unfold Reading.visit
    cases a.scan <;> cases b.scan <;> simp only [access_note, note_comm r a b]
    exact access_comm _ a b _ _

lemma foldl_visit_perm {fs gs : List Facts} {a : Facts} (h : gs.Perm (a :: fs)) :
    gs.foldl Reading.visit {} = (fs.foldl Reading.visit {}).visit a := by
  have hlast : gs.Perm (fs ++ [a]) := h.trans (perm_append_singleton a fs).symm
  rw [hlast.foldl_eq, foldl_append, foldl_cons, foldl_nil]

lemma visit_empty (r : Reading) : r.visit {} = r := by
  simp [Reading.visit, Reading.note, Facts.scan]

lemma foldl_visit_filter (fs : List Facts) (r : Reading) :
    (fs.filter (· ≠ {})).foldl Reading.visit r = fs.foldl Reading.visit r := by
  induction fs generalizing r with
  | nil => rfl
  | cons f fs ih =>
    by_cases hf : f = {}
    · subst hf
      rw [filter_cons_of_neg (by simp), foldl_cons, visit_empty, ih]
    · rw [filter_cons_of_pos (by simpa using hf), foldl_cons, foldl_cons, ih]

section Document
variable (outOfRange : UInt64 → Int)

def readingOf (block : Fields) : Reading := (factsIn outOfRange block).foldl Reading.visit {}

lemma parseExplain_eq (block : Fields) : parseExplain outOfRange (some block) = (readingOf outOfRange block).finish := by
  rw [parseExplain, readingOf, factsIn, foldl_visit_filter]

/-- The document states what the other does and one more table access. -/
structure AddsAccess (block block' : Fields) (added : Facts) : Prop where
  scan : added.scan.isSome
  states : (factsIn outOfRange block').Perm (added :: factsIn outOfRange block)

def ReadsTable (block : Fields) : Prop := ∃ f ∈ factsIn outOfRange block, f.scan.isSome

end Document

/-- At any moment of the walk: a full scan was met when the worst access is one, and no more
tables were sized than read whole. -/
structure Reading.Sound (r : Reading) : Prop where
  fresh : r.plan.statsFresh = true
  sized : r.sized ≤ r.fullScans
  start : r.tables = 0 → r.fullScans = 0
  known : 0 < r.tables → r.plan.scanType ≠ .seq
  full : 0 < r.tables → (r.plan.scanType = .full ↔ 0 < r.fullScans)

namespace Reading.Sound

lemma note {r : Reading} (h : r.Sound) (f : Facts) : (r.note f).Sound := ⟨h.fresh, h.sized, h.start, h.known, h.full⟩

lemma access {r : Reading} (h : r.Sound) (f : Facts) {scan : ScanType} (hscan : scan ≠ .seq) : (r.access f scan).Sound where
  fresh := h.fresh
  sized := by
    have hsized := h.sized
    simp only [Reading.access]
    split_ifs <;> grind
  start := by simp [Reading.access]
  known := by
    intro _
    show worst r.tables r.plan.scanType scan ≠ .seq
    by_cases hzero : r.tables = 0
    · simpa [worst, hzero] using hscan
    · have hkept := h.known (Nat.pos_of_ne_zero hzero)
      unfold worst
      split_ifs
      · exact hscan
      · exact hkept
  full := by
    intro _
    show worst r.tables r.plan.scanType scan = .full ↔ 0 < if scan = .full then r.fullScans + 1 else r.fullScans
    by_cases hzero : r.tables = 0
    · have hstart := h.start hzero
      simp only [worst, hzero, true_or, if_true]
      split_ifs with hs <;> simp [hs, hstart]
    · have hfull := h.full (Nat.pos_of_ne_zero hzero)
      -- No access is worse than a full scan, and a full scan is worse than any other.
      have hworst : worst r.tables r.plan.scanType scan = .full ↔ scan = .full ∨ r.plan.scanType = .full := by
        simp only [worst, hzero, false_or]
        cases scan <;> cases r.plan.scanType <;> decide
      rw [hworst, hfull]
      split_ifs with hs <;> simp [hs]

lemma visit {r : Reading} (h : r.Sound) (f : Facts) : (r.visit f).Sound := by
  unfold Reading.visit
  cases hscan : f.scan with
  | none => exact h.note f
  | some scan =>
    apply (h.note f).access
    unfold Facts.scan at hscan
    split at hscan
    · simp at hscan
    · obtain ⟨access, -, rfl⟩ := Option.map_eq_some_iff.mp hscan
      exact mysqlScanType_ne_seq access

lemma foldl (fs : List Facts) : (fs.foldl Reading.visit {}).Sound := by
  apply List.foldlRecOn fs Reading.visit (motive := Reading.Sound)
  · exact ⟨rfl, le_rfl, fun _ => rfl, fun h => absurd h (lt_irrefl 0), fun h => absurd h (lt_irrefl 0)⟩
  · intro r h f _
    exact h.visit f

end Reading.Sound

lemma tables_visit (r : Reading) (f : Facts) : r.tables ≤ (r.visit f).tables ∧ (f.scan.isSome → 0 < (r.visit f).tables) := by
  unfold Reading.visit
  cases f.scan with
  | none => exact ⟨le_rfl, by simp⟩
  | some scan => exact ⟨Nat.le_succ _, fun _ => Nat.succ_pos _⟩

lemma tables_foldl (fs : List Facts) (r : Reading) : r.tables ≤ (fs.foldl Reading.visit r).tables := by
  induction fs generalizing r with
  | nil => exact le_rfl
  | cons f fs ih => exact (tables_visit r f).1.trans (ih _)

lemma tables_pos {fs : List Facts} (h : ∃ f ∈ fs, f.scan.isSome) (r : Reading) : 0 < (fs.foldl Reading.visit r).tables := by
  induction fs generalizing r with
  | nil => simp at h
  | cons f fs ih =>
    obtain ⟨g, hg, hscan⟩ := h
    rcases mem_cons.mp hg with rfl | hg
    · exact ((tables_visit r g).2 hscan).trans_le (tables_foldl fs _)
    · exact ih ⟨g, hg, hscan⟩ _

def Estimate.Refuses (e : Estimate) (plan : Plan) : Prop := (e.evaluate plan false).allow = false

structure Plan.NoSafer (p p' : Plan) : Prop where
  unknown : p.scanType = .unknown → p'.scanType = .unknown
  full : p.scanType = .full → p'.scanType = .full
  overLimit : ∀ limit, p.overScanLimit limit = true → p'.overScanLimit limit = true
  fresh : p'.statsFresh = true → p.statsFresh = true
  score : (scorePlan p').value ≤ (scorePlan p).value

lemma refuses_iff {e : Estimate} {plan : Plan} :
    e.Refuses plan ↔
      let p := smallTable plan e.threshold
      (e.failClosed = true ∧ p.scanType = .unknown) ∨ (p.scanType = .full ∧ e.threshold.rejectFullScan = true) ∨
        p.overScanLimit e.threshold.maxScannedRows = true ∨
        (p.scanType = .unknown ∧ e.threshold.requireKnownScan = true) ∨
        (p.statsFresh = false ∧ e.threshold.requireFreshStats = true) ∨
        (0 < e.threshold.hardScore ∧ (scorePlan p).value < e.threshold.hardScore) ∨
        (0 < e.threshold.softScore ∧ (scorePlan p).value < e.threshold.softScore) := by
  simp only [Estimate.Refuses, Estimate.evaluate, Estimate.evaluatePlan, Bool.false_eq_true, if_false, false_or]
  split_ifs <;> simp_all

lemma Plan.NoSafer.refuses {e : Estimate} {plan plan' : Plan}
    (h : (smallTable plan e.threshold).NoSafer (smallTable plan' e.threshold)) (hrefuses : e.Refuses plan) :
    e.Refuses plan' := by
  rw [refuses_iff] at hrefuses ⊢
  dsimp only at hrefuses ⊢
  have hscore := h.score
  rcases hrefuses with ⟨hclosed, hu⟩ | ⟨hf, hreject⟩ | hover | ⟨hu, hknown⟩ | ⟨hstale, hrequire⟩ | ⟨hpos, hlt⟩ | ⟨hpos, hlt⟩
  · exact .inl ⟨hclosed, h.unknown hu⟩
  · exact .inr (.inl ⟨h.full hf, hreject⟩)
  · exact .inr (.inr (.inl (h.overLimit _ hover)))
  · exact .inr (.inr (.inr (.inl ⟨h.unknown hu, hknown⟩)))
  · refine .inr (.inr (.inr (.inr (.inl ⟨?_, hrequire⟩))))
    by_contra hfresh
    rw [h.fresh (by simpa using hfresh)] at hstale
    simp at hstale
  · exact .inr (.inr (.inr (.inr (.inr (.inl ⟨hpos, by omega⟩)))))
  · exact .inr (.inr (.inr (.inr (.inr (.inr ⟨hpos, by omega⟩)))))

lemma rowPenalty_mono {m n : Int} (h : m ≤ n) : rowPenalty m ≤ rowPenalty n := by
  unfold rowPenalty
  split_ifs <;> omega

lemma rowPenalty_nonneg (n : Int) : 0 ≤ rowPenalty n := by
  unfold rowPenalty
  split_ifs <;> omega

lemma scanScore_antitone {a b : ScanType} (h : risk a ≤ risk b) : (scanScore b).value ≤ (scanScore a).value := by
  cases a <;> cases b <;> simp [risk, scanScore] at h ⊢

lemma value_less (s : Score) (hit : Bool) (penalty : Int) (factor : String) :
    (s.less hit penalty factor).value = s.value - if hit then penalty else 0 := by
  cases hit <;> simp [Score.less]

lemma clamp_mono {m n : Int} (h : m ≤ n) :
    (if m < 0 then 0 else if 100 < m then 100 else m) ≤ if n < 0 then 0 else if 100 < n then 100 else n := by
  split_ifs <;> omega

lemma scorePlan_antitone {p p' : Plan} (hscan : risk p.scanType ≤ risk p'.scanType) (hsort : p.hasSort = true → p'.hasSort = true)
    (htemp : p.hasTempTable = true → p'.hasTempTable = true) (hfresh : p'.statsFresh = true → p.statsFresh = true)
    (hrows : p.estimatedRows ≤ p'.estimatedRows) : (scorePlan p').value ≤ (scorePlan p).value := by
  have hbase := scanScore_antitone hscan
  have hpenalty := rowPenalty_mono hrows
  have hrow : ∀ n, (if decide (0 < rowPenalty n) = true then rowPenalty n else 0) = rowPenalty n := by
    intro n
    have hnonneg := rowPenalty_nonneg n
    split_ifs with hpos
    · rfl
    · simp only [decide_eq_true_eq, not_lt] at hpos
      omega
  have hs : (if p.hasSort = true then (5 : Int) else 0) ≤ if p'.hasSort = true then 5 else 0 := by
    split_ifs <;> simp_all
  have ht : (if p.hasTempTable = true then (10 : Int) else 0) ≤ if p'.hasTempTable = true then 10 else 0 := by
    split_ifs <;> simp_all
  have hf : (if (!p.statsFresh) = true then (15 : Int) else 0) ≤ if (!p'.statsFresh) = true then 15 else 0 := by
    split_ifs <;> simp_all
  simp only [scorePlan, value_less, hrow]
  apply clamp_mono
  linarith

def Plan.Small (p : Plan) (th : Threshold) : Prop :=
  p.scanType = .full ∧ 0 < th.fullScanMaxRows ∧ p.tableSized = true ∧ p.tableRows ≤ th.fullScanMaxRows

instance (p : Plan) (th : Threshold) : Decidable (p.Small th) := inferInstanceAs (Decidable (_ ∧ _))

lemma smallTable_pos {p : Plan} {th : Threshold} (h : p.Small th) : smallTable p th = { p with scanType := .index } := if_pos h

lemma smallTable_neg {p : Plan} {th : Threshold} (h : ¬p.Small th) : smallTable p th = p := if_neg h

lemma risk_smallTable_le (p : Plan) (th : Threshold) : risk (smallTable p th).scanType ≤ risk p.scanType := by
  by_cases h : p.Small th
  · rw [smallTable_pos h, h.1]
    show risk .index ≤ risk .full
    decide
  · rw [smallTable_neg h]

lemma over_of_sized {p : Plan} (h : p.tableSized = true) {limit : Int} :
    p.overScanLimit limit = true ↔ 0 < limit ∧ limit < max p.estimatedRows p.tableRows := by
  simp [Plan.overScanLimit, Plan.scannedRowsKnown, h]

lemma over_of_unsized {p : Plan} (h : p.tableSized = false) {limit : Int} :
    p.overScanLimit limit = true ↔ 0 < limit ∧ (p.scanType = .full ∨ limit < p.estimatedRows) := by
  simp [Plan.overScanLimit, Plan.scannedRowsKnown, h]

/-- How the plan of one more access stands to the plan without it. -/
structure Plan.Extends (p p' : Plan) : Prop where
  unknown : p.scanType = .unknown → p'.scanType = .unknown
  scan : risk p.scanType ≤ risk p'.scanType
  known : p.scanType ≠ .seq
  sort : p.hasSort = true → p'.hasSort = true
  temp : p.hasTempTable = true → p'.hasTempTable = true
  fresh : p.statsFresh = true
  rows : p.estimatedRows ≤ p'.estimatedRows
  table : p.tableRows ≤ p'.tableRows
  /-- A full scan no one sized stays one. -/
  unsized : p.scanType = .full → p'.tableSized = true → p.tableSized = true
  /-- Tables are sized for full scans alone. -/
  sized : p'.scanType ≠ .full → p.tableSized = false

namespace Plan.Extends
variable {p p' : Plan} (h : p.Extends p')
include h

lemma full (hfull : p.scanType = .full) : p'.scanType = .full := by
  have hscan := h.scan
  rw [hfull] at hscan
  cases hs : p'.scanType <;> simp [hs, risk] at hscan ⊢

lemma small {th : Threshold} (hfull : p.scanType = .full) (hsmall : p'.Small th) : p.Small th :=
  ⟨hfull, hsmall.2.1, h.unsized hfull hsmall.2.2.1, h.table.trans hsmall.2.2.2⟩

lemma risk_smallTable (th : Threshold) :
    risk (smallTable p th).scanType ≤ risk (smallTable p' th).scanType := by
  by_cases hsmall : p'.Small th
  · -- The other plan is judged as an index scan; this one reads no worse than one.
    rw [smallTable_pos hsmall]
    show risk (smallTable p th).scanType ≤ 1
    cases hs : p.scanType with
    | point =>
      have hle := risk_smallTable_le p th
      rw [hs] at hle
      exact hle.trans (by decide)
    | index =>
      have hle := risk_smallTable_le p th
      rwa [hs] at hle
    | seq => exact absurd hs h.known
    | unknown =>
      have hu := h.unknown hs
      rw [hsmall.1] at hu
      cases hu
    | full =>
      rw [smallTable_pos (h.small hs hsmall)]
      exact le_rfl
  · rw [smallTable_neg hsmall]
    exact (risk_smallTable_le p th).trans h.scan

lemma overLimit (th : Threshold) (limit : Int) (hover : (smallTable p th).overScanLimit limit = true) :
    (smallTable p' th).overScanLimit limit = true := by
  have hrows := h.rows
  have htable := h.table
  -- What a limit reads of a plan is not changed by taking a sized full scan for an index scan.
  have hread : ∀ q : Plan, (smallTable q th).overScanLimit limit = q.overScanLimit limit := by
    intro q
    by_cases hsmall : q.Small th
    · rw [smallTable_pos hsmall]
      simp only [Plan.overScanLimit, Plan.scannedRowsKnown, hsmall.2.2.1, if_true]
    · rw [smallTable_neg hsmall]
  rw [hread] at hover ⊢
  cases hp' : p'.tableSized with
  | true =>
    rw [over_of_sized hp']
    cases hp : p.tableSized with
    | true =>
      rw [over_of_sized hp] at hover
      omega
    | false =>
      have hfull : p.scanType ≠ .full := by
        intro hfull
        rw [h.unsized hfull hp'] at hp
        cases hp
      rw [over_of_unsized hp] at hover
      obtain ⟨hpos, hlt⟩ := hover
      have := hlt.resolve_left hfull
      omega
  | false =>
    rw [over_of_unsized hp']
    by_cases hfull' : p'.scanType = .full
    · refine ⟨?_, .inl hfull'⟩
      simp only [Plan.overScanLimit, Bool.and_eq_true, decide_eq_true_eq] at hover
      exact hover.1
    · rw [over_of_unsized (h.sized hfull')] at hover
      obtain ⟨hpos, hlt⟩ := hover
      have := hlt.resolve_left fun hf => hfull' (h.full hf)
      exact ⟨hpos, .inr (by omega)⟩

lemma noSafer (th : Threshold) : (smallTable p th).NoSafer (smallTable p' th) where
  unknown := by
    intro hu
    have hp : p.scanType = .unknown := by
      by_cases hsmall : p.Small th
      · rw [smallTable_pos hsmall] at hu
        cases hu
      · rwa [smallTable_neg hsmall] at hu
    have hp' := h.unknown hp
    rw [smallTable_neg (fun hsmall => by rw [hsmall.1] at hp'; cases hp')]
    exact hp'
  full := by
    intro hf
    have hsmall : ¬p.Small th := by
      intro hsmall
      rw [smallTable_pos hsmall] at hf
      cases hf
    rw [smallTable_neg hsmall] at hf
    rw [smallTable_neg (fun hsmall' => hsmall (h.small hf hsmall'))]
    exact h.full hf
  overLimit := h.overLimit th
  fresh := by
    intro _
    unfold smallTable
    split_ifs <;> exact h.fresh
  score := by
    apply scorePlan_antitone (h.risk_smallTable th)
    · unfold smallTable
      split_ifs <;> exact h.sort
    · unfold smallTable
      split_ifs <;> exact h.temp
    · intro _
      unfold smallTable
      split_ifs <;> exact h.fresh
    · unfold smallTable
      split_ifs <;> exact h.rows

end Plan.Extends

lemma le_atLeast (rows : Option Int) (count : Int) : count ≤ atLeast rows count := by
  cases rows with
  | none => exact le_rfl
  | some r => exact le_max_left _ _

lemma finish_of_tables {r : Reading} (h : 0 < r.tables) :
    r.finish = { r.plan with tableSized := 0 < r.fullScans && r.sized == r.fullScans } := by
  rw [Reading.finish, if_neg (fun hzero => h.ne' hzero.1)]

lemma extends_visit {r : Reading} (h : r.Sound) (htables : 0 < r.tables) {a : Facts} {scan : ScanType}
    (hscan : a.scan = some scan) (hhide : ¬(r.plan.scanType = .unknown ∧ scan = .full)) :
    r.finish.Extends (r.visit a).finish := by
  have hvisit : r.visit a = (r.note a).access a scan := by rw [Reading.visit, hscan]
  have hsound := h.visit a
  have htables' : 0 < (r.visit a).tables := by rw [hvisit]; exact Nat.succ_pos _
  have hworst : (r.visit a).plan.scanType = if worse scan r.plan.scanType then scan else r.plan.scanType := by
    rw [hvisit]
    show worst r.tables r.plan.scanType scan = _
    simp only [worst, htables.ne', false_or]
  have hfullScans : (r.visit a).fullScans = if scan = .full then r.fullScans + 1 else r.fullScans := by rw [hvisit]; rfl
  have hsized : (r.visit a).sized = if scan = .full ∧ a.examined.isSome then r.sized + 1 else r.sized := by
    rw [hvisit]; rfl
  rw [finish_of_tables htables, finish_of_tables htables']
  constructor <;> dsimp only
  case unknown =>
    intro hu
    have hnot : scan ≠ .full := fun hs => hhide ⟨hu, hs⟩
    rw [hworst, hu]
    cases scan <;> simp_all [worse, risk]
  case scan =>
    rw [hworst]
    split_ifs with hw
    · exact le_of_lt (by simpa [worse] using hw)
    · exact le_rfl
  case known => exact h.known htables
  case sort =>
    intro hs
    rw [hvisit]
    show (r.plan.hasSort || a.sort) = true
    simp [hs]
  case temp =>
    intro ht
    rw [hvisit]
    show (r.plan.hasTempTable || a.temp) = true
    simp [ht]
  case fresh => exact h.fresh
  case rows =>
    rw [hvisit]
    exact (le_atLeast _ _).trans (le_atLeast _ _)
  case table =>
    rw [hvisit]
    show r.plan.tableRows ≤ if scan = .full then atLeast a.examined r.plan.tableRows else r.plan.tableRows
    split_ifs
    · exact le_atLeast _ _
    · exact le_rfl
  case unsized =>
    intro hf hs
    have hpos := (h.full htables).mp hf
    have hle := h.sized
    rw [hfullScans, hsized] at hs
    simp only [Bool.and_eq_true, decide_eq_true_eq, beq_iff_eq] at hs ⊢
    refine ⟨hpos, ?_⟩
    have heq := hs.2
    by_cases hscanFull : scan = .full
    · simp only [hscanFull, true_and, if_true] at heq
      split_ifs at heq <;> omega
    · simpa [hscanFull] using heq
  case sized =>
    intro hnot
    have hzero : (r.visit a).fullScans = 0 := by
      have hiff := hsound.full htables'
      by_contra hne
      exact hnot (hiff.mpr (Nat.pos_of_ne_zero hne))
    have hr : r.fullScans = 0 := by
      rw [hfullScans] at hzero
      split_ifs at hzero
      exact hzero
    simp [hr]

section Document
variable (outOfRange : UInt64 → Int)

/-- Reading one more table turns no refusal into an admission, whatever the layer, unless a
full scan is added to a plan whose worst access is of unknown type: the plan is then judged
by the full scan alone, which may be of a small table. -/
theorem refusal_kept_iff {block block' : Fields} {added : Facts} (hreads : ReadsTable outOfRange block)
    (hadds : AddsAccess outOfRange block block' added) :
    (∀ e : Estimate, e.Refuses (parseExplain outOfRange (some block)) →
      e.Refuses (parseExplain outOfRange (some block'))) ↔
    ¬((parseExplain outOfRange (some block)).scanType = .unknown ∧ added.scan = some .full) := by
  obtain ⟨scan, hscan⟩ := Option.isSome_iff_exists.mp hadds.scan
  have htables : 0 < (readingOf outOfRange block).tables := tables_pos hreads {}
  have hnext : readingOf outOfRange block' = (readingOf outOfRange block).visit added := foldl_visit_perm hadds.states
  have hsound : (readingOf outOfRange block).Sound := .foldl _
  rw [parseExplain_eq, parseExplain_eq, hnext]
  have hkept : (readingOf outOfRange block).finish.scanType = (readingOf outOfRange block).plan.scanType := by
    rw [finish_of_tables htables]
  rw [hkept, hscan, Option.some.injEq]
  constructor
  · rintro hall ⟨hunknown, rfl⟩
    -- A layer that refuses unknown scans and nothing else.
    let e : Estimate := ⟨fun _ _ => .ok {}, {}, none, true⟩
    have hrefuses : e.Refuses (readingOf outOfRange block).finish := by
      rw [refuses_iff]
      exact .inl ⟨rfl, by rw [smallTable_neg (by simp [Plan.Small, e]), hkept, hunknown]⟩
    have hadmits := refuses_iff.mp (hall e hrefuses)
    have hfull : ((readingOf outOfRange block).visit added).finish.scanType = .full := by
      have htables' : 0 < ((readingOf outOfRange block).visit added).tables := (tables_visit _ _).2 hadds.scan
      rw [finish_of_tables htables', Reading.visit, hscan]
      show worst _ _ _ = _
      simp [worst, worse, risk, show ((readingOf outOfRange block).note added).plan.scanType = .unknown from hunknown]
    rw [smallTable_neg (by simp [Plan.Small, e])] at hadmits
    simp [hfull, e, Plan.overScanLimit] at hadmits
  · intro hhide e
    exact ((extends_visit hsound htables hscan hhide).noSafer e.threshold).refuses

end Document

/-! A document whose one table is read by an access type the code does not list, and the same
with a table of ten rows read whole. -/

def unlistedAccess : Value :=
  .object [("table", .object [("access_type", .text "ref_or_null"), ("rows_examined_per_scan", .num 0x4024000000000000)])]

def smallAccess : Fields := [("access_type", .text "ALL"), ("rows_examined_per_scan", .num 0x4024000000000000)]

/-- Unknown scans are refused, full scans too unless of tables of at most 1000 rows. -/
def cautiousLayer : Estimate where
  explain _ _ := .ok {}
  threshold := { rejectFullScan := true, fullScanMaxRows := 1000, requireKnownScan := true, hardScore := 60 }
  feedback := none
  failClosed := true

theorem refusal_lost_behind_small_table :
    let block : Fields := [("nested_loop", .list [unlistedAccess])]
    let block' : Fields := [("nested_loop", .list [unlistedAccess, .object [("table", .object smallAccess)]])]
    ReadsTable (fun _ => 0) block ∧ AddsAccess (fun _ => 0) block block' (factsOf (fun _ => 0) smallAccess) ∧
      cautiousLayer.Refuses (parseExplain (fun _ => 0) (some block)) ∧
      ¬cautiousLayer.Refuses (parseExplain (fun _ => 0) (some block')) := by
  refine ⟨⟨_, mem_cons_self, by decide +kernel⟩, ⟨by decide +kernel, by decide +kernel⟩, ?_, ?_⟩
  · rw [Estimate.Refuses]
    decide +kernel
  · rw [Estimate.Refuses]
    decide +kernel

/-- A small table read whole beside a keyed one: no layer that refused it admits both. -/
theorem refusal_kept_iff_keyed :
    let keyed : Value := .object [("table", .object [("access_type", .text "eq_ref")])]
    let block : Fields := [("nested_loop", .list [keyed])]
    let block' : Fields := [("nested_loop", .list [keyed, .object [("table", .object smallAccess)]])]
    ∀ e : Estimate, e.Refuses (parseExplain (fun _ => 0) (some block)) → e.Refuses (parseExplain (fun _ => 0) (some block')) := by
  intro keyed block block'
  have hreads : ReadsTable (fun _ => 0) block := ⟨_, mem_cons_self, by decide +kernel⟩
  have hadds : AddsAccess (fun _ => 0) block block' (factsOf (fun _ => 0) smallAccess) :=
    ⟨by decide +kernel, by decide +kernel⟩
  exact (refusal_kept_iff _ hreads hadds).mpr (by decide +kernel)

end SqlMcpServer.Cost
