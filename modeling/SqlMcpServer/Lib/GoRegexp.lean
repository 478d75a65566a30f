import Mathlib.Data.List.Basic

/-!
# A fragment of Go's regular expressions

Literal and escaped characters, `.`, `.*`, the flag `(?s)` and the anchors `\A` and `\z`, as
`regexp.Compile` reads them and `MatchString` finds them. `Compile`'s limits of size are left out, and
every other construct is refused.
-/

namespace GoRegexp

open List

inductive Atom where
  | char (c : Char)
  /-- `.`, and whether it stands for a newline too. -/
  | any (newline : Bool)
deriving DecidableEq, Repr

inductive Piece where
  | one (a : Atom)
  | many (a : Atom)
  /-- `\A` -/
  | start
  /-- `\z` -/
  | stop
deriving DecidableEq, Repr

def special : List Char := ['\\', '.', '+', '*', '?', '(', ')', '|', '[', ']', '\x7b', '\x7d', '^', '$']

def quoteMeta (c : Char) : List Char := if c ∈ special then ['\\', c] else [c]

/-- What an escaped character stands for. -/
def escape (c : Char) : Option Piece :=
  if c = 'A' then some .start
  else if c = 'z' then some .stop
  else if c.toNat < 128 && !c.isAlphanum then some (.one (.char c))
  else none

def parse : List Char → Bool → Option (List Piece)
  | [], _ => some []
  | '(' :: '?' :: 's' :: ')' :: cs, _ => parse cs true
  | '\\' :: c :: cs, newline => (escape c).bind fun p => (parse cs newline).map (p :: ·)
  | '.' :: '*' :: cs, newline => (parse cs newline).map (.many (.any newline) :: ·)
  | '.' :: cs, newline => (parse cs newline).map (.one (.any newline) :: ·)
  | c :: cs, newline => if c ∈ special then none else (parse cs newline).map (.one (.char c) :: ·)

def compile (cs : List Char) : Option (List Piece) := parse cs false

def Atom.fits : Atom → Char → Bool
  | .char c, d => c == d
  | .any newline, d => newline || d != '\n'

/-- A match that starts here; `first` at the start of the text. -/
def matchHere : List Piece → Bool → List Char → Bool
  | [], _, _ => true
  | .one a :: ps, _, c :: cs => a.fits c && matchHere ps false cs
  | .one _ :: _, _, [] => false
  | .many _ :: ps, first, [] => matchHere ps first []
  | .many a :: ps, first, c :: cs => matchHere ps first (c :: cs) || a.fits c && matchHere (.many a :: ps) false cs
  | .start :: ps, first, cs => first && matchHere ps first cs
  | .stop :: ps, first, cs => cs.isEmpty && matchHere ps first cs
termination_by ps _ cs => (ps.length, cs.length)

def matchString (ps : List Piece) (cs : List Char) : Bool := matchHere ps true cs || cs.tails.tail.any (matchHere ps false)

lemma parse_quoteMeta (c : Char) (cs : List Char) (newline : Bool) :
    parse (quoteMeta c ++ cs) newline = (parse cs newline).map (.one (.char c) :: ·) := by
  unfold quoteMeta
  split_ifs with hc
  · have hescape : special.all (fun c => escape c = some (.one (.char c))) = true := by decide
    have hc' := all_eq_true.mp hescape c hc
    rw [cons_append, cons_append, nil_append, parse, of_decide_eq_true hc', Option.bind_some]
  · have hplain : c ≠ '(' ∧ c ≠ '\\' ∧ c ≠ '.' := by
      simp only [special, mem_cons, not_or] at hc
      exact ⟨hc.2.2.2.2.2.1, hc.1, hc.2.1⟩
    rw [cons_append, nil_append, parse, if_neg hc]
    all_goals simp [hplain]

lemma quoteMeta_head (c : Char) (cs : List Char) : (quoteMeta c ++ cs).head? ≠ some '*' := by
  unfold quoteMeta
  split_ifs with hc
  · simp
  · rintro ⟨⟩
    exact hc (by decide)

lemma parse_anySeq (cs : List Char) (newline : Bool) :
    parse ('.' :: '*' :: cs) newline = (parse cs newline).map (.many (.any newline) :: ·) := by
  rw [parse]

lemma parse_dot {cs : List Char} (h : cs.head? ≠ some '*') (newline : Bool) :
    parse ('.' :: cs) newline = (parse cs newline).map (.one (.any newline) :: ·) := by
  rw [parse]
  rintro cs rfl
  exact h rfl

/-- `.*` goes on anywhere, with `(?s)`. -/
lemma matchHere_anySeq (ps : List Piece) (first : Bool) (cs : List Char) :
    matchHere (.many (.any true) :: ps) first cs = (matchHere ps first cs || cs.tails.tail.any (matchHere ps false)) := by
  induction cs generalizing first with
  | nil => simp [matchHere]
  | cons c cs ih =>
    rw [matchHere, ih]
    cases cs <;> simp [Atom.fits, tails]

lemma matchString_start (ps : List Piece) (cs : List Char) : matchString (.start :: ps) cs = matchHere ps true cs := by
  simp [matchString, matchHere]

end GoRegexp
