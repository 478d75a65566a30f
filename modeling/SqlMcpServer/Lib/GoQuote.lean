import SqlMcpServer.Lib.GoStrings
import Mathlib.Tactic

/-!
# Quoted strings

`strconv.Quote`: what it writes can be read back, and the end of a quoted string is found
from its start, whatever follows it.
-/

namespace GoQuote

open List

/-- The last `w` hexadecimal digits of a number, lower case. -/
def hex : Nat → Nat → List Char
  | 0, _ => []
  | w + 1, n => hex w (n / 16) ++ [(n % 16).digitChar]

/-- The letters of the escapes that have one. -/
def letters : List (Nat × Char) :=
  [(7, 'a'), (8, 'b'), (12, 'f'), (10, 'n'), (13, 'r'), (9, 't'), (11, 'v')]

/-- What `strconv.Quote` writes for a character that is neither printable nor a quote. -/
def escape (n : Nat) : List Char :=
  match letters.lookup n with
  | some letter => ['\\', letter]
  | none =>
    if n < 0x20 ∨ n = 0x7f then '\\' :: 'x' :: hex 2 n
    else if n < 0x10000 then '\\' :: 'u' :: hex 4 n
    else '\\' :: 'U' :: hex 8 n

/-- What `strconv.Quote` writes for one character; `isPrint` is `strconv.IsPrint`. -/
def quoteChar (isPrint : Char → Bool) (c : Char) : List Char :=
  if c = '"' ∨ c = '\\' then ['\\', c] else if isPrint c then [c] else escape c.toNat

def quote (isPrint : Char → Bool) (s : String) : String :=
  String.ofList ('"' :: s.toList.flatMap (quoteChar isPrint) ++ ['"'])

def unhexDigit (c : Char) : Nat :=
  if c.isDigit then c.toNat - '0'.toNat else c.toNat - 'a'.toNat + 10

def unhex (cs : List Char) : Nat := cs.foldl (fun n c => 16 * n + unhexDigit c) 0

/-- The width of the number after an escape's letter. -/
def width (letter : Char) : Nat :=
  if letter = 'x' then 2 else if letter = 'u' then 4 else 8

/-- The character at the start of a quoted text, and what follows it. -/
def readChar : List Char → Option (Char × List Char)
  | '\\' :: letter :: rest =>
    if letter = '"' ∨ letter = '\\' then some (letter, rest)
    else
      match letters.find? (·.2 = letter) with
      | some (n, _) => some (Char.ofNat n, rest)
      | none => some (Char.ofNat (unhex (rest.take (width letter))), rest.drop (width letter))
  | c :: rest => some (c, rest)
  | [] => none

lemma unhexDigit_digitChar : ∀ n < 16, unhexDigit n.digitChar = n := by decide

lemma length_hex (w n : Nat) : (hex w n).length = w := by
  induction w generalizing n with
  | zero => rfl
  | succ w ih => rw [hex, length_append, ih]; rfl

lemma unhex_hex {w n : Nat} (h : n < 16 ^ w) : unhex (hex w n) = n := by
  induction w generalizing n with
  | zero =>
    have hzero : n = 0 := by simpa using h
    rw [hzero]
    rfl
  | succ w ih =>
    have hdiv : n / 16 < 16 ^ w := by
      rw [pow_succ] at h
      omega
    have hlast := unhexDigit_digitChar (n % 16) (Nat.mod_lt n (by decide))
    rw [hex, unhex, foldl_append, ← unhex, ih hdiv]
    simp only [foldl_cons, foldl_nil, hlast]
    omega

lemma readChar_hex {letter : Char} {c : Char} {rest : List Char} (hletter : letter ∈ ['x', 'u', 'U'])
    (hfit : c.toNat < 16 ^ width letter) :
    readChar ('\\' :: letter :: (hex (width letter) c.toNat ++ rest)) = some (c, rest) := by
  have hother : ∀ l ∈ ['x', 'u', 'U'], ¬(l = '"' ∨ l = '\\') ∧ letters.find? (·.2 = l) = none := by
    intro l hl
    simp only [mem_cons, not_mem_nil, or_false] at hl
    rcases hl with rfl | rfl | rfl <;> decide
  obtain ⟨hquote, hnone⟩ := hother letter hletter
  have hlen := length_hex (width letter) c.toNat
  rw [readChar, if_neg hquote, hnone]
  simp [take_append_of_le_length hlen.ge, drop_append_of_le_length hlen.ge, take_of_length_le hlen.le,
    drop_of_length_le hlen.le, unhex_hex hfit]

lemma readChar_escape (c : Char) (rest : List Char) : readChar (escape c.toNat ++ rest) = some (c, rest) := by
  unfold escape
  cases hlook : letters.lookup c.toNat with
  | some letter =>
    -- One of seven letters, each the escape of one number.
    have hmem : (c.toNat, letter) ∈ letters := by
      obtain ⟨l₁, l₂, hl, -⟩ := lookup_eq_some_iff.mp hlook
      simp [hl]
    have hread : ∀ p ∈ letters, ¬(p.2 = '"' ∨ p.2 = '\\') ∧ letters.find? (·.2 = p.2) = some p := by decide
    obtain ⟨hquote, hfind⟩ := hread _ hmem
    simp only [cons_append, nil_append]
    rw [readChar, if_neg hquote, hfind]
    simp
  | none =>
    have hchar : c.toNat < 16 ^ 8 := by
      have hvalid := c.valid
      simp only [UInt32.isValidChar, Nat.isValidChar] at hvalid
      change c.val.toNat < 16 ^ 8
      omega
    by_cases hlow : c.toNat < 0x20 ∨ c.toNat = 0x7f
    · simp only [if_pos hlow, cons_append]
      exact readChar_hex (by simp) (show c.toNat < 256 by omega)
    · by_cases hmid : c.toNat < 0x10000
      · simp only [if_neg hlow, if_pos hmid, cons_append]
        exact readChar_hex (by simp) hmid
      · simp only [if_neg hlow, if_neg hmid, cons_append]
        exact readChar_hex (by simp) hchar

lemma readChar_quoteChar (isPrint : Char → Bool) (c : Char) (rest : List Char) :
    readChar (quoteChar isPrint c ++ rest) = some (c, rest) := by
  unfold quoteChar
  by_cases hquote : c = '"' ∨ c = '\\'
  · rw [if_pos hquote]
    simp only [cons_append, nil_append]
    rw [readChar, if_pos hquote]
  · rw [if_neg hquote]
    split
    · rw [not_or] at hquote
      simp only [singleton_append]
      rw [readChar]
      rintro letter tail heq -
      exact hquote.2 heq
    · exact readChar_escape c rest

lemma head_quoteChar (isPrint : Char → Bool) (c : Char) (rest : List Char) :
    ∃ first tail, quoteChar isPrint c ++ rest = first :: tail ∧ first ≠ '"' := by
  unfold quoteChar escape
  split
  · exact ⟨'\\', _, rfl, by decide⟩
  · rename_i hquote
    rw [not_or] at hquote
    split
    · exact ⟨c, rest, rfl, hquote.1⟩
    · repeat' split
      all_goals exact ⟨'\\', _, rfl, by decide⟩

lemma quoteChars_inj (isPrint : Char → Bool) {a b x y : List Char}
    (h : a.flatMap (quoteChar isPrint) ++ '"' :: x = b.flatMap (quoteChar isPrint) ++ '"' :: y) : a = b ∧ x = y := by
  induction a generalizing b with
  | nil =>
    cases b with
    | nil => simpa using h
    | cons d b =>
      rw [flatMap_nil, flatMap_cons, append_assoc] at h
      obtain ⟨first, tail, hhead, hne⟩ := head_quoteChar isPrint d (b.flatMap (quoteChar isPrint) ++ '"' :: y)
      rw [hhead, nil_append, cons.injEq] at h
      exact absurd h.1.symm hne
  | cons c a ih =>
    cases b with
    | nil =>
      rw [flatMap_nil, flatMap_cons, append_assoc] at h
      obtain ⟨first, tail, hhead, hne⟩ := head_quoteChar isPrint c (a.flatMap (quoteChar isPrint) ++ '"' :: x)
      rw [hhead, nil_append, cons.injEq] at h
      exact absurd h.1 hne
    | cons d b =>
      rw [flatMap_cons, flatMap_cons, append_assoc, append_assoc] at h
      have hread := congrArg readChar h
      rw [readChar_quoteChar, readChar_quoteChar, Option.some.injEq, Prod.mk.injEq] at hread
      obtain ⟨rfl, hrest⟩ := hread
      obtain ⟨rfl, rfl⟩ := ih hrest
      exact ⟨rfl, rfl⟩

lemma quote_append_inj (isPrint : Char → Bool) {s t : String} {x y : List Char}
    (h : (quote isPrint s).toList ++ x = (quote isPrint t).toList ++ y) : s = t ∧ x = y := by
  rw [quote, quote, String.toList_ofList, String.toList_ofList] at h
  simp only [cons_append, append_assoc, nil_append, cons.injEq, true_and] at h
  obtain ⟨hst, hxy⟩ := quoteChars_inj isPrint h
  exact ⟨String.toList_inj.mp hst, hxy⟩

end GoQuote
