import Mathlib.Data.List.Basic
import Mathlib.Tactic.Lemma

/-!
# Texts joined by a separator they may hold

A list of values is written as the values' texts, each followed by a separator, which some texts
may hold themselves. `exists_iff_recut` says which lists share their text with another list of
their length.
-/

namespace Joined

open List
variable {α β : Type}

/-- Texts of values. An open value's text can be continued after a separator, and a text that
holds a separator is an open value's text continued. -/
structure Code (α β : Type) where
  text : α → List β
  sep : β
  Open : α → Prop
  inj : Function.Injective text
  cut : ∀ {v : α} {x y : List β}, text v = x ++ sep :: y → Open v ∧ ∃ u, Open u ∧ text u = x
  continued : ∀ {u : α}, Open u → ∀ y, ∃ v, text v = text u ++ sep :: y

namespace Code
variable (K : Code α β)

def row (l : List α) : List β := l.flatMap fun v => K.text v ++ [K.sep]

@[simp] lemma row_nil : K.row [] = [] := rfl

lemma row_cons (v : α) (l : List α) : K.row (v :: l) = K.text v ++ K.sep :: K.row l := by simp [row]

lemma row_append (l m : List α) : K.row (l ++ m) = K.row l ++ K.row m := flatMap_append

lemma row_eq_intercalate {l : List α} (hl : l ≠ []) :
    K.row l = [K.sep].intercalate (l.map K.text) ++ [K.sep] := by
  induction l with
  | nil => exact absurd rfl hl
  | cons v l ih =>
    cases l with
    | nil => simp [row_cons]
    | cons w l =>
      rw [row_cons, ih (by simp), map_cons, map_cons, map_cons, intercalate_cons_cons]
      simp

/-- Two texts with a separator after each end together, or one goes on after a separator. -/
lemma meet {s : β} {x y r q : List β} (h : x ++ s :: r = y ++ s :: q) :
    (x = y ∧ r = q) ∨ (∃ z, y = x ++ s :: z ∧ r = z ++ s :: q) ∨ ∃ z, x = y ++ s :: z ∧ q = z ++ s :: r := by
  rcases append_eq_append_iff.mp h with ⟨z, hy, hr⟩ | ⟨z, hx, hq⟩
  · cases z with
    | nil => simp_all
    | cons c z =>
      simp only [cons_append, cons.injEq] at hr
      exact .inr (.inl ⟨z, by rw [hy, hr.1], hr.2⟩)
  · cases z with
    | nil => simp_all
    | cons c z =>
      simp only [cons_append, cons.injEq] at hq
      exact .inr (.inr ⟨z, by rw [hx, hq.1], hq.2⟩)

variable {K} {v : α} {a b p q : List α}

/-- A value inside of whose text another list's text starts can be written as two. -/
lemma cut_value {y z : List β} (hv : K.text v = z ++ K.sep :: y) (h : K.row q = y ++ K.sep :: K.row p) :
    ∃ x w, K.text v = K.text x ++ K.sep :: K.text w ∧
      (K.Open w ∨ ∃ q', K.row q' = K.row p ∧ q'.length < q.length) := by
  induction q generalizing y z with
  | nil => simp at h
  | cons w q ih =>
    obtain ⟨-, x, -, hx⟩ := K.cut hv
    rw [row_cons] at h
    rcases meet h with ⟨rfl, hrow⟩ | ⟨z', rfl, hrow⟩ | ⟨z', hw, -⟩
    · exact ⟨x, w, by rw [hx, hv], .inr ⟨q, hrow, by simp⟩⟩
    · obtain ⟨x', w', hsplit, hrest⟩ := ih (z := z ++ K.sep :: K.text w) (by rw [hv]; simp) hrow
      refine ⟨x', w', hsplit, hrest.imp_right ?_⟩
      rintro ⟨q', hq', hlen⟩
      exact ⟨q', hq', by rw [length_cons]; omega⟩
    · obtain ⟨-, u, hu, rfl⟩ := K.cut hw
      exact ⟨x, u, by rw [hx, hv], .inl hu⟩

variable (K) in
def Splits (p : List α) : Prop := ∃ A v B x w, p = A ++ v :: B ∧ K.text v = K.text x ++ K.sep :: K.text w

lemma Splits.cons (h : K.Splits p) : K.Splits (v :: p) := by
  obtain ⟨A, u, B, x, w, rfl, hu⟩ := h
  exact ⟨v :: A, u, B, x, w, rfl, hu⟩

lemma splits_head {y z : List β} (hv : K.text v = z ++ K.sep :: y) (h : K.row q = y ++ K.sep :: K.row p) :
    K.Splits (v :: p) := by
  obtain ⟨x, w, hsplit, -⟩ := cut_value hv h
  exact ⟨[], v, p, x, w, rfl, hsplit⟩

/-- A list whose text, or the end of it, is that of a list with more values. -/
lemma splits_of_longer : (∀ q : List α, p.length < q.length → K.row p = K.row q → K.Splits p) ∧
    ∀ (z : List β) (q : List α), p.length ≤ q.length → K.row p = z ++ K.sep :: K.row q → K.Splits p := by
  induction p with
  | nil =>
    refine ⟨fun q hlen h => ?_, fun z q _ h => by simp at h⟩
    cases q with
    | nil => simp at hlen
    | cons w q => simp [row_cons] at h
  | cons v p ih =>
    refine ⟨fun q hlen h => ?_, fun z q hlen h => ?_⟩
    · cases q with
      | nil => simp at hlen
      | cons w q =>
        simp only [length_cons, Nat.add_lt_add_iff_right] at hlen
        rw [row_cons, row_cons] at h
        rcases meet h with ⟨-, h⟩ | ⟨z, -, h⟩ | ⟨z, hv, h⟩
        · exact (ih.1 q hlen h).cons
        · exact (ih.2 z q (Nat.le_of_lt hlen) h).cons
        · exact splits_head hv h
    · rw [length_cons] at hlen
      rw [row_cons] at h
      rcases meet h with ⟨-, h⟩ | ⟨z, -, h⟩ | ⟨y, hv, h⟩
      · exact (ih.1 q hlen h).cons
      · exact (ih.2 z q (Nat.le_of_succ_le hlen) h).cons
      · exact splits_head hv h

/-- The longer of two lists with one text has an open value that is not its last. -/
lemma open_of_shorter (h : K.row p = K.row q) (hlen : p.length < q.length) :
    ∃ C u y D, q = C ++ u :: y :: D ∧ K.Open u := by
  induction q generalizing p with
  | nil => simp at hlen
  | cons w q ih =>
    cases p with
    | nil => simp [row_cons] at h
    | cons v p =>
      simp only [length_cons, Nat.add_lt_add_iff_right] at hlen
      obtain ⟨y, D, rfl⟩ := exists_cons_of_length_pos (Nat.zero_lt_of_lt hlen)
      rw [row_cons, K.row_cons w] at h
      rcases meet h with ⟨-, h⟩ | ⟨z, hw, -⟩ | ⟨z, hv, -⟩
      · obtain ⟨C, u, y', D', hq, hu⟩ := ih h hlen
        exact ⟨w :: C, u, y', D', by rw [hq]; rfl, hu⟩
      · exact ⟨[], w, y, D, rfl, (K.cut hw).1⟩
      · obtain ⟨-, u, hu, huw⟩ := K.cut hv
        exact ⟨[], w, y, D, rfl, K.inj huw ▸ hu⟩

variable (K) in
/-- One value `v` of the list can be written as two, `x` and `w`, and in the list this gives an
open value other than `x` has a value after it. -/
def Recut (a : List α) : Prop :=
  ∃ A v B x w C u y D, a = A ++ v :: B ∧ K.text v = K.text x ++ K.sep :: K.text w ∧
    A ++ x :: w :: B = C ++ u :: y :: D ∧ K.Open u ∧ C.length ≠ A.length

lemma Recut.cons (h : K.Recut a) : K.Recut (v :: a) := by
  obtain ⟨A, v', B, x, w, C, u, y, D, rfl, hsplit, hother, hu, hne⟩ := h
  exact ⟨v :: A, v', B, x, w, v :: C, u, y, D, rfl, hsplit, by rw [cons_append, hother]; rfl, hu, by simpa using hne⟩

lemma recut_of_row_eq (hlen : a.length = b.length) (h : K.row a = K.row b) (hne : a ≠ b) : K.Recut a := by
  induction a generalizing b with
  | nil => exact absurd (length_eq_zero_iff.mp hlen.symm).symm hne
  | cons v a ih =>
    obtain ⟨w, b, rfl⟩ := exists_cons_of_length_eq_add_one hlen.symm
    simp only [length_cons, Nat.add_right_cancel_iff] at hlen
    rw [row_cons, row_cons] at h
    rcases meet h with ⟨hvw, h⟩ | ⟨z, hw, h⟩ | ⟨z, hv, h⟩
    · rw [K.inj hvw] at hne ⊢
      exact (ih hlen h fun hab => hne (by rw [hab])).cons
    · -- The other list's first value goes on where `v` ends: `v` is rejoined with its successor.
      obtain ⟨A, v', B, x, w', rfl, hsplit⟩ := splits_of_longer.2 z b (Nat.le_of_eq hlen) h
      obtain ⟨-, u, hu, huv⟩ := K.cut hw
      obtain ⟨y, D, hD⟩ : ∃ y D, A ++ x :: w' :: B = y :: D := by cases A <;> simp
      exact ⟨v :: A, v', B, x, w', [], v, y, D, rfl, hsplit, by rw [cons_append, hD]; rfl, K.inj huv ▸ hu, by simp⟩
    · -- The other list's text starts inside of `v`.
      obtain ⟨x, w', hsplit, hw' | ⟨q, hq, hshort⟩⟩ := cut_value hv h
      · cases a with
        | nil =>
          rw [length_eq_zero_iff.mp hlen.symm] at h
          simp at h
        | cons y D => exact ⟨[], v, y :: D, x, w', [x], w', y, D, rfl, hsplit, rfl, hw', by simp⟩
      · obtain ⟨C, u, y, D, rfl, hu⟩ := open_of_shorter hq (hlen ▸ hshort)
        exact ⟨[], v, _, x, w', x :: w' :: C, u, y, D, rfl, hsplit, rfl, hu, by simp⟩

/-- Values written as one at different places give different lists. -/
lemma joined_ne {A B C D : List α} {x w u y v v' : α} {z : List β} (hlt : A.length < C.length)
    (hother : A ++ x :: w :: B = C ++ u :: y :: D) (hsplit : K.text v = K.text x ++ K.sep :: z) :
    A ++ v :: B ≠ C ++ v' :: D := by
  intro heq
  have hx := congrArg (·[A.length]?) hother
  have hv := congrArg (·[A.length]?) heq
  simp only [getElem?_append_right (Nat.le_refl _), getElem?_append_left hlt, Nat.sub_self,
    getElem?_cons_zero] at hx hv
  rw [Option.some.inj (hv.trans hx.symm)] at hsplit
  have hlen := congrArg length hsplit
  rw [length_append, length_cons] at hlen
  omega

/-- The lists that share their text with another list of their length. -/
lemma exists_iff_recut : (∃ b, b.length = a.length ∧ K.row b = K.row a ∧ b ≠ a) ↔ K.Recut a := by
  constructor
  · rintro ⟨b, hlen, h, hne⟩
    exact recut_of_row_eq hlen.symm h.symm hne.symm
  · rintro ⟨A, v, B, x, w, C, u, y, D, rfl, hsplit, hother, hu, hne⟩
    obtain ⟨v', hv'⟩ := K.continued hu (K.text y)
    refine ⟨C ++ v' :: D, ?_, ?_, ?_⟩
    · have hlen := congrArg length hother
      simp only [length_append, length_cons] at hlen ⊢
      omega
    · have hrow := congrArg K.row hother
      simp only [row_append, row_cons, hsplit, hv', append_assoc, cons_append] at hrow ⊢
      exact hrow.symm
    · rcases Nat.lt_or_gt_of_ne hne with hlt | hlt
      · exact joined_ne hlt hother.symm hv'
      · exact (joined_ne hlt hother hsplit).symm

end Code
end Joined
