import SqlMcpServer.Lib.GoDecimal
import SqlMcpServer.Lib.GoInt
import SqlMcpServer.Lib.GoQuote
import SqlMcpServer.Relalg.Operators

/-!
# Join keys

An expansion matches parents and children by a text of their join values, whatever type the
driver gave them (tools_read_impl.go).
-/

namespace SqlMcpServer.Tool

open List GoDecimal
open Relalg Interp
open GoInt (int64 KeepsInt64 keepsInt64_int64)

/-- What the library decides about a text: `strconv.IsPrint`, and what `big.Rat.SetString`
reads of a text that is no plain decimal (exponents, fractions, base prefixes). -/
structure Strconv where
  isPrint : Char → Bool
  otherRat : String → Option Rat

def Strconv.setString (lib : Strconv) (text : String) : Option Rat :=
  match GoDecimal.value text with
  | some q => some q
  | none => lib.otherRat text

/-- A join value as the driver returns it. -/
inductive DriverValue where
  | null
  /-- Any of Go's integer types: they print alike. -/
  | int (n : Int)
  /-- A float with what `strconv.FormatFloat` writes for it. -/
  | float (type text : String)
  /-- A string, or bytes read as one. -/
  | text (s : String)
  /-- Any other type with what `fmt.Sprint` writes for the value. -/
  | other (type text : String)
  deriving DecidableEq, Repr

def gcd (a b : Int) : Int :=
  if b = 0 then if a = 0 then 1 else a else gcd b (a.tmod b)
termination_by b.natAbs
decreasing_by
  rw [Int.natAbs_tmod]
  exact Nat.mod_lt _ (Int.natAbs_pos.mpr ‹_›)

/-- The loop of `decimalKey` over the digits, each operation's result kept by `wrap`. -/
def digitsNumber (wrap : Int → Int) (digits : List Char) : Option Int :=
  digits.foldlM (fun num c =>
    if c < '0' ∨ '9' < c then none else some (wrap (wrap (num * 10) + ((c.toNat - '0'.toNat : Nat) : Int)))) 0

/-- `decimalKey`, each operation's result kept by `wrap`. -/
def decimalKeyWith (wrap : Int → Int) (text : String) : Option String :=
  let p := GoDecimal.parts text
  if p.digits = [] ∨ 18 < p.digits.length then none
  else
    (digitsNumber wrap p.digits).map fun num =>
      let den := p.frac.foldl (fun den _ => wrap (den * 10)) 1
      let g := gcd num den
      let (num, den) := (num.tdiv g, den.tdiv g)
      let num := if p.negative ∧ num ≠ 0 then wrap (-num) else num
      if den = 1 then "n:" ++ toString num else "n:" ++ (toString num ++ "/" ++ toString den)

def decimalKey (text : String) : Option String := decimalKeyWith int64 text

/-- The key of the number `text` spells; the key of a value of that type when it is not a
finite number. -/
def numberKey (lib : Strconv) (text type : String) : String :=
  match decimalKey text with
  | some key => key
  | none =>
    match lib.setString text with
    | some r => "n:" ++ ratString r
    | none => type ++ ":" ++ GoQuote.quote lib.isPrint text

def textKey (lib : Strconv) (s : String) (decimal : Bool) : String :=
  if decimal then numberKey lib s "string" else "s:" ++ GoQuote.quote lib.isPrint s

def joinPart (lib : Strconv) (decimal : Bool) : DriverValue → Option String
  | .null => none
  | .int n => some ("n:" ++ toString n)
  | .float type text => some (numberKey lib text type)
  | .text s => some (textKey lib s decimal)
  | .other type text => some (type ++ ":" ++ GoQuote.quote lib.isPrint text)

def joinParts (lib : Strconv) : List DriverValue → List Bool → Option (List String)
  | [], _ => some []
  | v :: values, decimal => do
    -- Past its end, the list of decimal columns says none is.
    let part ← joinPart lib (decimal.headD false) v
    let parts ← joinParts lib values decimal.tail
    return part :: parts

def joinKeyOf (lib : Strconv) (values : List DriverValue) (decimal : List Bool) : Option String :=
  (joinParts lib values decimal).map (",".intercalate ·)

/-! ## What a value is

The value a driver's answer stands for, where it is an integer, a decimal of a decimal
column or a string of another.
-/

def DriverValue.meaning (decimal : Bool) : DriverValue → Option Value
  | .int n => some (.num n)
  | .text s => if decimal then (GoDecimal.value s).map .num else some (.str s)
  | _ => none

def tupleMeaning : List DriverValue → List Bool → Option (List Value)
  | [], _ => some []
  | v :: values, decimal => do
    let m ← v.meaning (decimal.headD false)
    let ms ← tupleMeaning values decimal.tail
    return m :: ms

lemma gcd_natCast (m n : Nat) : gcd m n = if m = 0 ∧ n = 0 then 1 else ((Nat.gcd m n : Nat) : Int) := by
  induction n using Nat.strong_induction_on generalizing m with
  | _ n ih =>
    rw [gcd]
    by_cases hn : n = 0
    · subst hn
      by_cases hm : m = 0 <;> simp [hm]
    · rw [if_neg (by exact_mod_cast hn), ← Int.ofNat_tmod, ih (m % n) (Nat.mod_lt m (Nat.pos_of_ne_zero hn)) n,
        if_neg (by simp [hn]), if_neg (by simp [hn]), Nat.gcd_comm n, ← Nat.gcd_rec, Nat.gcd_comm]

lemma isDigit_iff_not_lt {c : Char} : c.isDigit ↔ ¬(c < '0' ∨ '9' < c) := by
  rw [Char.isDigit_iff_toNat, Char.lt_def, Char.lt_def, UInt32.lt_iff_toNat_lt, UInt32.lt_iff_toNat_lt]
  change 48 ≤ c.toNat ∧ c.toNat ≤ 57 ↔ ¬(c.toNat < 48 ∨ 57 < c.toNat)
  omega

section Exact
variable {wrap : Int → Int} (hwrap : KeepsInt64 wrap)
include hwrap

lemma keepsInt64_natCast {n : Nat} (h : n < 2 ^ 63) : wrap n = n := by
  apply hwrap <;> omega

lemma digitsLoop_exact {ds : List Char} {init k : Nat} (hds : ∀ c ∈ ds, c.isDigit) (hinit : init < 10 ^ k)
    (hlen : k + ds.length ≤ 18) :
    ds.foldlM (fun num c => if c < '0' ∨ '9' < c then none
      else some (wrap (wrap (num * 10) + ((c.toNat - '0'.toNat : Nat) : Int)))) (init : Int) =
      some ((Nat.ofDigitChars 10 ds init : Nat) : Int) := by
  induction ds generalizing init k with
  | nil => rfl
  | cons c ds ih =>
    rw [forall_mem_cons] at hds
    have hdigit := Char.isDigit_iff_toNat.mp hds.1
    have hin := isDigit_iff_not_lt.mp hds.1
    rw [length_cons] at hlen
    have hpow : 10 ^ (k + 1) ≤ 10 ^ 18 := Nat.pow_le_pow_right (by decide) (by omega)
    have hnext : 10 * init + (c.toNat - '0'.toNat) < 10 ^ (k + 1) := by
      rw [pow_succ]
      simp only [Char.reduceToNat] at hdigit ⊢
      omega
    have htimes : wrap ((init : Int) * 10) = ((10 * init : Nat) : Int) := by
      have hcast : (init : Int) * 10 = ((10 * init : Nat) : Int) := by omega
      rw [hcast]
      apply keepsInt64_natCast hwrap
      omega
    have hplus : wrap (((10 * init : Nat) : Int) + ((c.toNat - '0'.toNat : Nat) : Int)) =
        ((10 * init + (c.toNat - '0'.toNat) : Nat) : Int) := by
      rw [← Nat.cast_add]
      apply keepsInt64_natCast hwrap
      omega
    rw [foldlM_cons, if_neg hin, htimes, hplus, Nat.ofDigitChars_cons]
    exact ih hds.2 hnext (by omega)

lemma denLoop_exact {α : Type} {frac : List α} {k : Nat} (hlen : k + frac.length ≤ 18) :
    frac.foldl (fun den _ => wrap (den * 10)) ((10 ^ k : Nat) : Int) = ((10 ^ (k + frac.length) : Nat) : Int) := by
  induction frac generalizing k with
  | nil => rfl
  | cons c frac ih =>
    rw [length_cons] at hlen
    have hpow : 10 ^ (k + 1) ≤ 10 ^ 18 := Nat.pow_le_pow_right (by decide) (by omega)
    have hstep : wrap (((10 ^ k : Nat) : Int) * 10) = ((10 ^ (k + 1) : Nat) : Int) := by
      have hcast : ((10 ^ k : Nat) : Int) * 10 = ((10 ^ (k + 1) : Nat) : Int) := by
        rw [pow_succ]
        push_cast
        rfl
      rw [hcast]
      apply keepsInt64_natCast hwrap
      omega
    rw [foldl_cons, hstep, ih (by omega), length_cons]
    congr 2
    omega

end Exact

lemma digitsLoop_none {wrap : Int → Int} {ds : List Char} (hds : ¬∀ c ∈ ds, c.isDigit) (init : Int) :
    ds.foldlM (fun num c => if c < '0' ∨ '9' < c then none
      else some (wrap (wrap (num * 10) + ((c.toNat - '0'.toNat : Nat) : Int)))) init = none := by
  induction ds generalizing init with
  | nil => simp at hds
  | cons c ds ih =>
    rw [foldlM_cons]
    split
    · rfl
    · rename_i hin
      apply ih
      intro hall
      exact hds (forall_mem_cons.mpr ⟨isDigit_iff_not_lt.mpr hin, hall⟩)

lemma decimalKeyWith_plain {wrap : Int → Int} (hwrap : KeepsInt64 wrap) {text : String}
    (hplain : (GoDecimal.parts text).Plain) (hlen : (GoDecimal.parts text).digits.length ≤ 18) :
    decimalKeyWith wrap text = some ("n:" ++ ratString (GoDecimal.parts text).value) := by
  set p := parts text with hp
  have hnum : digitsNumber wrap p.digits = some (p.number : Int) :=
    digitsLoop_exact hwrap hplain.isDigit (k := 0) (by decide) (by omega)
  have hfrac : p.frac.length ≤ 18 := by
    rw [GoDecimal.Parts.digits, length_append] at hlen
    omega
  have hden : p.frac.foldl (fun den _ => wrap (den * 10)) 1 = (p.denominator : Int) := by
    have hloop : p.frac.foldl (fun den _ => wrap (den * 10)) ((10 ^ 0 : Nat) : Int) =
        ((10 ^ (0 + p.frac.length) : Nat) : Int) := denLoop_exact hwrap (by omega)
    rwa [Nat.zero_add] at hloop
  have hbound : p.number < 2 ^ 63 := by
    have hlt := ofDigitChars_lt hplain.isDigit (show 0 < 10 ^ 0 by decide)
    have hpow : 10 ^ (0 + p.digits.length) ≤ 10 ^ 18 := Nat.pow_le_pow_right (by decide) (by omega)
    rw [← GoDecimal.Parts.number] at hlt
    omega
  have hgcd : gcd (p.number : Int) (p.denominator : Int) = ((p.denominator.gcd p.number : Nat) : Int) := by
    rw [gcd_natCast, if_neg (fun h => p.denominator_pos.ne' h.2), Nat.gcd_comm]
  have hquot : (if p.negative = true ∧ ((p.number / p.denominator.gcd p.number : Nat) : Int) ≠ 0 then
      wrap (-((p.number / p.denominator.gcd p.number : Nat) : Int))
      else ((p.number / p.denominator.gcd p.number : Nat) : Int)) = p.value.num := by
    have hle : p.number / p.denominator.gcd p.number ≤ p.number := Nat.div_le_self _ _
    rw [p.num_value]
    generalize p.number / p.denominator.gcd p.number = q at hle
    cases p.negative with
    | false => simp
    | true =>
      rw [if_pos rfl]
      split
      · apply hwrap <;> omega
      · rename_i hzero
        simp only [true_and, ne_eq, not_not] at hzero
        rw [hzero]
        rfl
  rw [decimalKeyWith, ← hp, if_neg (by simp [hplain.1]; omega), hnum, Option.map_some]
  simp only [hden, hgcd, ← Int.ofNat_tdiv]
  rw [hquot, ratString, ← p.den_value]
  by_cases hone : p.value.den = 1
  · rw [if_pos (by exact_mod_cast hone), if_pos hone]
  · rw [if_neg (by exact_mod_cast hone), if_neg hone]
    rfl

lemma plain_of_decimalKeyWith {wrap : Int → Int} {text key : String} (h : decimalKeyWith wrap text = some key) :
    (GoDecimal.parts text).Plain ∧ (GoDecimal.parts text).digits.length ≤ 18 := by
  unfold decimalKeyWith at h
  dsimp only at h
  split at h
  · simp at h
  · rename_i hlen
    rw [not_or, not_lt] at hlen
    refine ⟨⟨hlen.1, ?_⟩, hlen.2⟩
    rw [List.all_eq_true]
    by_contra hdigits
    rw [digitsNumber, digitsLoop_none hdigits] at h
    simp at h

lemma numberKey_of_value (lib : Strconv) {text : String} {q : Rat} (h : GoDecimal.value text = some q) (type : String) :
    numberKey lib text type = "n:" ++ ratString q := by
  have hset : lib.setString text = some q := by rw [Strconv.setString, h]
  rw [value] at h
  split at h
  · rename_i hplain
    rw [Option.some.injEq] at h
    cases hkey : decimalKey text with
    | none => rw [numberKey, hkey, hset]
    | some key =>
      have hshort := decimalKeyWith_plain keepsInt64_int64 hplain (plain_of_decimalKeyWith hkey).2
      rw [numberKey, decimalKey, hshort, h]
  · simp at h

def valuePart (lib : Strconv) : Value → String
  | .num q => "n:" ++ ratString q
  | .str s => "s:" ++ GoQuote.quote lib.isPrint s
  | _ => ""

def Joinable : Value → Prop
  | .num _ | .str _ => True
  | _ => False

lemma joinPart_meaning (lib : Strconv) {d : Bool} {v : DriverValue} {m : Value} (h : v.meaning d = some m) :
    joinPart lib d v = some (valuePart lib m) ∧ Joinable m := by
  cases v with
  | int n =>
    obtain rfl : .num n = m := by simpa [DriverValue.meaning] using h
    exact ⟨by simp [joinPart, valuePart, ratString], trivial⟩
  | text s =>
    cases d with
    | false =>
      obtain rfl : .str s = m := by simpa [DriverValue.meaning] using h
      exact ⟨rfl, trivial⟩
    | true =>
      obtain ⟨q, hq, rfl⟩ : ∃ q, value s = some q ∧ .num q = m := by simpa [DriverValue.meaning] using h
      exact ⟨by rw [joinPart, textKey, if_pos rfl, numberKey_of_value lib hq]; rfl, trivial⟩
  | null | float _ _ | other _ _ => simp [DriverValue.meaning] at h

lemma joinParts_meaning (lib : Strconv) {values : List DriverValue} {decimal : List Bool} {ms : List Value}
    (h : tupleMeaning values decimal = some ms) :
    joinParts lib values decimal = some (ms.map (valuePart lib)) ∧ (∀ m ∈ ms, Joinable m) ∧
      ms.length = values.length := by
  induction values generalizing decimal ms with
  | nil =>
    obtain rfl : [] = ms := by simpa [tupleMeaning] using h
    exact ⟨rfl, by simp, rfl⟩
  | cons v values ih =>
    simp only [tupleMeaning, Option.bind_eq_bind, Option.bind_eq_some_iff, Option.pure_def, Option.some.injEq] at h
    obtain ⟨m, hm, tail, htail, rfl⟩ := h
    obtain ⟨hpart, hjoinable⟩ := joinPart_meaning lib hm
    obtain ⟨hparts, hall, hlen⟩ := ih htail
    refine ⟨?_, forall_mem_cons.mpr ⟨hjoinable, hall⟩, by simp [hlen]⟩
    rw [joinParts, hpart, hparts]
    rfl

lemma joinKeyOf_meaning (lib : Strconv) {values : List DriverValue} {decimal : List Bool} {ms : List Value}
    (h : tupleMeaning values decimal = some ms) :
    joinKeyOf lib values decimal = some (",".intercalate (ms.map (valuePart lib))) := by
  rw [joinKeyOf, (joinParts_meaning lib h).1, Option.map_some]

lemma comma_not_mem_ratString (q : Rat) : ',' ∉ (ratString q).toList := by
  have hnum : ',' ∉ (toString q.num).toList := not_mem_toString_int (by decide) (by decide) _
  have hden : ',' ∉ (toString q.den).toList := not_mem_toString_nat (by decide) _
  unfold ratString
  split
  · exact hnum
  · simp only [String.toList_append, mem_append, hnum, hden, or_false]
    decide

lemma valuePart_cut (lib : Strconv) {m n : Value} (hm : Joinable m) (hn : Joinable n) {x y : List Char}
    (h : (valuePart lib m).toList ++ ',' :: x = (valuePart lib n).toList ++ ',' :: y) : m = n ∧ x = y := by
  cases m <;> cases n <;> simp only [Joinable] at hm hn
  case num.num p q =>
    simp only [valuePart, String.toList_append, append_assoc, append_cancel_left_eq] at h
    obtain ⟨hpq, hxy⟩ := GoStrings.append_sep_inj (comma_not_mem_ratString p) (comma_not_mem_ratString q) h
    exact ⟨by rw [ratString_inj (String.toList_inj.mp hpq)], hxy⟩
  case str.str s t =>
    simp only [valuePart, String.toList_append, append_assoc, append_cancel_left_eq] at h
    obtain ⟨rfl, hxy⟩ := GoQuote.quote_append_inj lib.isPrint h
    exact ⟨rfl, by simpa using hxy⟩
  all_goals
    have hhead := congrArg List.head? h
    simp [valuePart] at hhead

lemma valueParts_inj (lib : Strconv) {ms ns : List Value} (hms : ∀ m ∈ ms, Joinable m) (hns : ∀ n ∈ ns, Joinable n)
    (hlen : ms.length = ns.length)
    (h : ",".intercalate (ms.map (valuePart lib)) = ",".intercalate (ns.map (valuePart lib))) : ms = ns := by
  apply GoStrings.join_map_inj ',' (valuePart lib) hlen _ h
  intro m hm n hn x y
  exact valuePart_cut lib (hms m hm) (hns n hn)

end SqlMcpServer.Tool
