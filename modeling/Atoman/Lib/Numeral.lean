import Mathlib.Data.Rat.Defs
import Mathlib.Data.List.Infix
import Mathlib.Algebra.Order.Field.Rat

/-!
# Decimal numerals

A numeral is digits with at most one dot among them and at least one digit, behind an
optional sign. What is left behind the longest numeral is a suffix of the text, and all of
it where there is none.
-/

namespace Atoman.Lib.Numeral

/-- The text starts with a digit. -/
def startsDigit (s : List Char) : Bool := s.head?.any Char.isDigit

/-- The text behind the longest run of digits with a dot. -/
def mantissaRest (s : List Char) : List Char :=
  match s.dropWhile Char.isDigit with
  | '.' :: t => if startsDigit s || startsDigit t then t.dropWhile Char.isDigit else s
  | r => r

/-- The text behind the longest numeral. -/
def numeralRest : List Char → List Char
  | '+' :: s => if mantissaRest s = s then '+' :: s else mantissaRest s
  | '-' :: s => if mantissaRest s = s then '-' :: s else mantissaRest s
  | s => mantissaRest s

/-- The number of a run of digits. -/
def digitsValue (digits : List Char) : ℕ := digits.foldl (fun n c => 10 * n + (c.toNat - 48)) 0

/-- The value of the longest run of digits with a dot. -/
def mantissaValue (s : List Char) : ℚ :=
  let whole := s.takeWhile Char.isDigit
  match s.dropWhile Char.isDigit with
  | '.' :: t =>
    let fraction := t.takeWhile Char.isDigit
    digitsValue whole + digitsValue fraction / 10 ^ fraction.length
  | _ => digitsValue whole

/-- The value of the longest numeral, zero where there is none. -/
def numeralValue : List Char → ℚ
  | '+' :: s => mantissaValue s
  | '-' :: s => -mantissaValue s
  | s => mantissaValue s

/-- A dot that has no digit on either side; `digit` says whether one stands in front. -/
def loneDot (digit : Bool) : List Char → Bool
  | [] => false
  | '.' :: s => (!digit && !startsDigit s) || loneDot false s
  | c :: s => loneDot c.isDigit s

theorem loneDot_cons {c : Char} (h : c ≠ '.') (digit : Bool) (s : List Char) :
    loneDot digit (c :: s) = loneDot c.isDigit s := by
  rw [loneDot]
  exact fun heq => absurd heq h

theorem loneDot_dot (digit : Bool) (s : List Char) :
    loneDot digit ('.' :: s) = ((!digit && !startsDigit s) || loneDot false s) := rfl

theorem ne_dot_of_isDigit {c : Char} (h : c.isDigit = true) : c ≠ '.' := by
  rintro rfl
  exact absurd h (by decide)

theorem loneDot_of_notMem {s : List Char} (h : '.' ∉ s) (digit : Bool) :
    loneDot digit s = false := by
  induction s generalizing digit with
  | nil => rfl
  | cons c s ih =>
    rw [List.mem_cons, not_or] at h
    rw [loneDot_cons (Ne.symm h.1), ih h.2]

/-- Digits in front of a text count as the digit in front. -/
theorem loneDot_digits {ds : List Char} (hds : ∀ c ∈ ds, c.isDigit = true) (digit : Bool)
    (r : List Char) :
    loneDot digit (ds ++ r) = loneDot (if ds = [] then digit else true) r := by
  induction ds generalizing digit with
  | nil => rfl
  | cons c ds ih =>
    rw [List.forall_mem_cons] at hds
    rw [List.cons_append, loneDot_cons (ne_dot_of_isDigit hds.1), ih hds.2, hds.1,
      if_neg (List.cons_ne_nil _ _)]
    split <;> rfl

/-- A text that does not start with a dot. -/
theorem loneDot_eq {s : List Char} (h : s.head? ≠ some '.') (digit digit' : Bool) :
    loneDot digit s = loneDot digit' s := by
  cases s with
  | nil => rfl
  | cons c s =>
    have hc : c ≠ '.' := fun heq => h (heq ▸ rfl)
    rw [loneDot_cons hc, loneDot_cons hc]

theorem mantissaRest_suffix (s : List Char) : mantissaRest s <:+ s := by
  unfold mantissaRest
  have hdigits := List.dropWhile_suffix (p := Char.isDigit) (l := s)
  split
  · next t heq =>
    rw [heq] at hdigits
    split
    · exact (List.dropWhile_suffix _).trans ((List.suffix_cons '.' t).trans hdigits)
    · exact List.suffix_refl s
  · exact hdigits

theorem takeWhile_ne_nil_of_startsDigit {s : List Char} (h : startsDigit s = true) :
    s.takeWhile Char.isDigit ≠ [] := by
  cases s with
  | nil => exact nomatch h
  | cons c s =>
    have hc : c.isDigit = true := h
    rw [List.takeWhile_cons, hc]
    exact List.cons_ne_nil _ _

/-- **Reading a numeral** leaves a lone dot alone, in a text of at most one dot. -/
theorem loneDot_mantissaRest {s : List Char} (h : s.count '.' ≤ 1) :
    loneDot false (mantissaRest s) = loneDot false s := by
  have hall (c : Char) (hc : c ∈ s.takeWhile Char.isDigit) : c.isDigit = true :=
    List.all_eq_true.mp List.all_takeWhile c hc
  have hsplit := loneDot_digits hall false (s.dropWhile Char.isDigit)
  rw [List.takeWhile_append_dropWhile] at hsplit
  unfold mantissaRest
  split
  · next t heq =>
    have hcount : (s.takeWhile Char.isDigit ++ s.dropWhile Char.isDigit).count '.' ≤ 1 := by
      rw [List.takeWhile_append_dropWhile]
      exact h
    rw [heq, List.count_append, List.count_cons_self] at hcount
    have hdot : '.' ∉ t := List.count_eq_zero.mp (by omega)
    have hrest : loneDot false (t.dropWhile Char.isDigit) = false :=
      loneDot_of_notMem (fun hin => hdot ((List.dropWhile_suffix _).subset hin)) _
    rw [heq, loneDot_dot, loneDot_of_notMem hdot, Bool.or_false] at hsplit
    split
    · next hdigit =>
      rw [hrest, hsplit]
      cases hs : startsDigit s with
      | true => rw [if_neg (takeWhile_ne_nil_of_startsDigit hs)]; rfl
      | false =>
        rw [hs, Bool.false_or] at hdigit
        rw [hdigit, Bool.not_true, Bool.and_false]
    · rfl
  · next hdot =>
    rw [hsplit]
    refine loneDot_eq (fun hhead => ?_) _ _
    obtain ⟨t, ht⟩ := List.head?_eq_some_iff.mp hhead
    exact hdot t ht

/-- **Progress**: a text that starts with a digit, or with a dot that is not alone, starts with
a numeral. -/
theorem length_mantissaRest_lt {c : Char} {s : List Char} (hc : c.isDigit = true ∨ c = '.')
    (hlone : loneDot false (c :: s) = false) :
    (mantissaRest (c :: s)).length < (c :: s).length := by
  rcases hc with hc | rfl
  · have hdrop : (c :: s).dropWhile Char.isDigit = s.dropWhile Char.isDigit := by
      rw [List.dropWhile_cons, if_pos hc]
    have hle : (s.dropWhile Char.isDigit).length ≤ s.length := (List.dropWhile_suffix _).length_le
    have hstarts : startsDigit (c :: s) = true := hc
    unfold mantissaRest
    rw [hdrop, hstarts]
    split
    · next t heq =>
      rw [heq, List.length_cons] at hle
      have hrest : (t.dropWhile Char.isDigit).length ≤ t.length :=
        (List.dropWhile_suffix _).length_le
      rw [Bool.true_or, if_pos rfl, List.length_cons]
      omega
    · rw [List.length_cons]
      omega
  · rw [loneDot_dot, Bool.or_eq_false_iff] at hlone
    have hs : startsDigit s = true := by simpa using hlone.1
    have hrest : (s.dropWhile Char.isDigit).length ≤ s.length := (List.dropWhile_suffix _).length_le
    have hvalue : mantissaRest ('.' :: s) = s.dropWhile Char.isDigit := by
      show (if startsDigit ('.' :: s) || startsDigit s then s.dropWhile Char.isDigit
        else '.' :: s) = _
      rw [hs, Bool.or_true, if_pos rfl]
    rw [hvalue, List.length_cons]
    omega

/-- A text without a sign. -/
theorem numeralRest_eq {s : List Char} (hplus : s.head? ≠ some '+') (hminus : s.head? ≠ some '-') :
    numeralRest s = mantissaRest s := by
  unfold numeralRest
  split
  · exact absurd rfl hplus
  · exact absurd rfl hminus
  · rfl

end Atoman.Lib.Numeral
