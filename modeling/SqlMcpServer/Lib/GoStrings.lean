import Mathlib.Data.List.Basic
import Mathlib.Tactic.Lemma

/-!
# Strings as Go's library reads them

The functions of `strings` and `unicode` that the code applies to names, on lists of characters.
-/

namespace GoStrings

open List

def isSpace (c : Char) : Bool :=
  let n := c.toNat
  (9 ≤ n && n ≤ 13) || n == 0x20 || n == 0x85 || n == 0xA0 || n == 0x1680 || (0x2000 ≤ n && n ≤ 0x200a) ||
    n == 0x2028 || n == 0x2029 || n == 0x202f || n == 0x205f || n == 0x3000

def trimSpace (cs : List Char) : List Char :=
  ((cs.dropWhile isSpace).reverse.dropWhile isSpace).reverse

/-- `unicode.ToLower`, for characters with an ASCII lower case. -/
def toLower (c : Char) : Char :=
  if c = 'İ' then 'i' else if c = 'K' then 'k' else c.toLower

/-- The text before the first `sep`, or all of it. -/
def cut (sep : Char) (cs : List Char) : List Char := cs.takeWhile (· ≠ sep)

/-- The text after the first `sep`, or nothing. -/
def after (sep : Char) (cs : List Char) : List Char := (cs.dropWhile (· ≠ sep)).drop 1

/-- The simple case folding of a character, for characters that fold with an ASCII letter. -/
def fold (c : Char) : Char :=
  if c = 'ſ' then 's' else if c = 'K' then 'k' else c.toLower

/-- `strings.EqualFold(s, text)` for an ASCII text. -/
def equalFold (s text : String) : Bool := s.toList.map fold == text.toList.map fold

/-- `strings.SplitN` for a separator of one character: at most `n` parts, the last the
unsplit rest. -/
def splitN (sep : Char) : Nat → List Char → List (List Char)
  | 0, _ => []
  | 1, cs => [cs]
  | n + 2, cs =>
    match cs.dropWhile (· ≠ sep) with
    | [] => [cs]
    | _ :: rest => cs.takeWhile (· ≠ sep) :: splitN sep (n + 1) rest

lemma dropWhile_eq_nil {sep : Char} {cs : List Char} : cs.dropWhile (· ≠ sep) = [] ↔ sep ∉ cs := by
  induction cs with
  | nil => simp
  | cons c cs ih =>
    by_cases hc : c = sep
    · simp [hc]
    · rw [dropWhile_cons_of_pos (by simpa using hc), ih]
      simp [Ne.symm hc]

lemma splitN_cut {sep : Char} {a b : List Char} (ha : sep ∉ a) (n : Nat) :
    splitN sep (n + 2) (a ++ sep :: b) = a :: splitN sep (n + 1) b := by
  have hpos : ∀ c ∈ a, decide (c ≠ sep) = true := fun c hc => by
    rw [decide_eq_true_eq]
    rintro rfl
    exact ha hc
  rw [splitN, dropWhile_append_of_pos hpos, takeWhile_append_of_pos hpos]
  simp

lemma splitN_congr (sep : Char) (s c x y : List Char) :
    (splitN sep 3 (s ++ sep :: (c ++ sep :: x))).take 2 = (splitN sep 3 (s ++ sep :: (c ++ sep :: y))).take 2 := by
  obtain ⟨a, b, hab, ha⟩ := eq_append_cons_of_mem (show sep ∈ s ++ sep :: c by simp)
  obtain ⟨a', b', hab', ha'⟩ := eq_append_cons_of_mem (show sep ∈ b ++ [sep] by simp)
  have hcut : ∀ z, (splitN sep 3 (s ++ sep :: (c ++ sep :: z))).take 2 = [a, a'] := by
    intro z
    have htext : s ++ sep :: (c ++ sep :: z) = a ++ sep :: (a' ++ sep :: (b' ++ z)) := by
      calc s ++ sep :: (c ++ sep :: z) = (s ++ sep :: c) ++ sep :: z := by simp
        _ = a ++ sep :: ((b ++ [sep]) ++ z) := by simp [hab]
        _ = a ++ sep :: (a' ++ sep :: (b' ++ z)) := by simp [hab']
    rw [htext, splitN_cut ha, splitN_cut ha', take_succ_cons, take_succ_cons, take_zero]
  rw [hcut x, hcut y]

lemma append_sep_inj {α : Type} {sep : α} {a b x y : List α} (ha : sep ∉ a) (hb : sep ∉ b)
    (h : a ++ sep :: x = b ++ sep :: y) : a = b ∧ x = y := by
  induction a generalizing b with
  | nil =>
    cases b with
    | nil => simpa using h
    | cons c b =>
      rw [nil_append, cons_append, cons.injEq] at h
      exact absurd (h.1 ▸ mem_cons_self) hb
  | cons c a ih =>
    cases b with
    | nil =>
      rw [nil_append, cons_append, cons.injEq] at h
      exact absurd (h.1 ▸ mem_cons_self) ha
    | cons d b =>
      rw [cons_append, cons_append, cons.injEq] at h
      obtain ⟨rfl, hrest⟩ := h
      obtain ⟨rfl, rfl⟩ := ih (fun hm => ha (mem_cons_of_mem _ hm)) (fun hm => hb (mem_cons_of_mem _ hm)) hrest
      exact ⟨rfl, rfl⟩

/-- Values can be read back from the join of their texts, given how many, when the end of
each text is found. -/
lemma join_map_inj {α : Type} (sep : Char) (text : α → String) {ps qs : List α} (hlen : ps.length = qs.length)
    (hcut : ∀ p ∈ ps, ∀ q ∈ qs, ∀ x y, (text p).toList ++ sep :: x = (text q).toList ++ sep :: y → p = q ∧ x = y)
    (h : (String.singleton sep).intercalate (ps.map text) = (String.singleton sep).intercalate (qs.map text)) :
    ps = qs := by
  induction ps generalizing qs with
  | nil => exact (length_eq_zero_iff.mp hlen.symm).symm
  | cons p ps ih =>
    cases qs with
    | nil => simp at hlen
    | cons q qs =>
      cases ps with
      | nil =>
        have hnil : qs = [] := by simpa using hlen
        subst hnil
        have htext : text p = text q := by simpa using h
        rw [(hcut p (by simp) q (by simp) [] [] (by rw [htext])).1]
      | cons p' ps =>
        cases qs with
        | nil => simp at hlen
        | cons q' qs =>
          simp only [map_cons, String.intercalate_cons_cons] at h
          have hlist := congrArg String.toList h
          simp only [String.toList_append, String.toList_singleton, append_assoc, singleton_append] at hlist
          obtain ⟨hhead, htail⟩ := hcut p (by simp) q (by simp) _ _ hlist
          rw [hhead, ih (by simpa using hlen)
            (fun r hr r' hr' => hcut r (mem_cons_of_mem _ hr) r' (mem_cons_of_mem _ hr'))
            (String.toList_inj.mp htail)]

lemma sep_mem_intercalate (sep : Char) (p q : String) (ps : List String) :
    sep ∈ ((String.singleton sep).intercalate (p :: q :: ps)).toList := by
  rw [String.intercalate_cons_cons]
  simp

lemma join_inj_of_ne_empty (sep : Char) {ps qs : List String} (hps : ∀ p ∈ ps, sep ∉ p.toList ∧ p ≠ "")
    (hqs : ∀ q ∈ qs, sep ∉ q.toList ∧ q ≠ "")
    (h : (String.singleton sep).intercalate ps = (String.singleton sep).intercalate qs) : ps = qs := by
  induction ps generalizing qs with
  | nil =>
    match qs with
    | [] => rfl
    | [q] => exact absurd (by simpa using h.symm) (hqs q (by simp)).2
    | q :: q' :: qs =>
      have hmem := sep_mem_intercalate sep q q' qs
      rw [← h] at hmem
      simp at hmem
  | cons p ps ih =>
    match ps, qs with
    | [], [] => exact absurd (by simpa using h) (hps p (by simp)).2
    | [], [q] => simpa using h
    | [], q :: q' :: qs =>
      have hmem := sep_mem_intercalate sep q q' qs
      rw [← h] at hmem
      exact absurd (by simpa using hmem) (hps p (by simp)).1
    | p' :: ps, [] =>
      have hmem := sep_mem_intercalate sep p p' ps
      rw [h] at hmem
      simp at hmem
    | p' :: ps, [q] =>
      have hmem := sep_mem_intercalate sep p p' ps
      rw [h] at hmem
      exact absurd (by simpa using hmem) (hqs q (by simp)).1
    | p' :: ps, q :: q' :: qs =>
      rw [String.intercalate_cons_cons, String.intercalate_cons_cons] at h
      have hlist := congrArg String.toList h
      simp only [String.toList_append, String.toList_singleton, append_assoc, singleton_append] at hlist
      obtain ⟨hhead, htail⟩ := append_sep_inj (hps p (by simp)).1 (hqs q (by simp)).1 hlist
      rw [String.toList_inj.mp hhead, ih (fun r hr => hps r (mem_cons_of_mem _ hr))
        (fun r hr => hqs r (mem_cons_of_mem _ hr)) (String.toList_inj.mp htail)]

lemma isDigit_of_mem_toString {n : Nat} {c : Char} (h : c ∈ (toString n).toList) : c.isDigit := by
  rw [Nat.toString_eq_ofList_toDigits, String.toList_ofList] at h
  exact Nat.isDigit_of_mem_toDigits (by decide) (by decide) h

lemma toString_nat_inj {m n : Nat} (h : toString m = toString n) : m = n := by
  rw [Nat.toString_eq_ofList_toDigits, Nat.toString_eq_ofList_toDigits] at h
  have hdigits : Nat.toDigits 10 m = Nat.toDigits 10 n := by simpa using congrArg String.toList h
  rw [← Nat.ofDigitChars_ten_toDigits (n := m), hdigits, Nat.ofDigitChars_ten_toDigits]

lemma toString_int (a : Int) : toString a = if 0 ≤ a then toString a.toNat else "-" ++ toString (-a).toNat :=
  Int.repr_eq_if

lemma sign_or_digit_of_mem_toString {a : Int} {c : Char} (h : c ∈ (toString a).toList) : c = '-' ∨ c.isDigit := by
  rw [toString_int] at h
  split at h
  · exact .inr (isDigit_of_mem_toString h)
  · rw [String.toList_append, mem_append] at h
    rcases h with h | h
    · exact .inl (by simpa using h)
    · exact .inr (isDigit_of_mem_toString h)

lemma toString_int_inj {a b : Int} (h : toString a = toString b) : a = b := by
  have hsign : ∀ m n : Nat, toString m ≠ "-" ++ toString n := by
    intro m n heq
    have hmem : '-' ∈ (toString m).toList := by simp [heq]
    have hdigit := isDigit_of_mem_toString hmem
    simp at hdigit
  rw [toString_int, toString_int] at h
  by_cases ha : 0 ≤ a <;> by_cases hb : 0 ≤ b
  · rw [if_pos ha, if_pos hb] at h
    have := toString_nat_inj h
    omega
  · rw [if_pos ha, if_neg hb] at h
    exact absurd h (hsign _ _)
  · rw [if_neg ha, if_pos hb] at h
    exact absurd h.symm (hsign _ _)
  · rw [if_neg ha, if_neg hb] at h
    have htail : toString (-a).toNat = toString (-b).toNat := by
      have hlist := congrArg String.toList h
      rw [String.toList_append, String.toList_append] at hlist
      exact String.toList_inj.mp (append_cancel_left hlist)
    have := toString_nat_inj htail
    omega

end GoStrings
