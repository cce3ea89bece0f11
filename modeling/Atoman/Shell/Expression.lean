import Atoman.Lib.Numeral
import Mathlib.Tactic.Ring

/-!
# The expression evaluator

A text is the characters in front of the terminating zero. The arithmetic is a parameter:
the operations of `float`, and `strtof`, which takes the longest numeral at the cursor and
leaves the cursor where it is when there is none. A loop that does not end has no result for
any fuel.
-/

namespace Atoman.Shell
open Lib.Numeral (numeralRest mantissaRest loneDot)

/-- The characters that `is_string_number` lets through. -/
def Plain (c : Char) : Prop := c.isDigit = true ∨ c = '.' ∨ c = '*' ∨ c = '/' ∨ c = '+' ∨ c = '-'

/-- What `eval_expr` uses of `float`. -/
structure Arithmetic (F : Type) where
  zero : F
  /-- `(float)sign` -/
  ofSign : ℤ → F
  add : F → F → F
  sub : F → F → F
  mul : F → F → F
  div : F → F → F
  /-- `next != 0.0f` -/
  nonzero : F → Bool
  strtof : List Char → F × List Char
  strtof_rest : ∀ s, (∀ c ∈ s, Plain c) → (strtof s).2 = numeralRest s

/-- The loop of `is_string_number` -/
def isStringNumberLoop : List Char → Bool → Bool → Bool
  | [], has_digit, _ => has_digit
  | c :: str, has_digit, has_dot =>
    if c.isDigit = true then isStringNumberLoop str true has_dot
    else if c = '.' ∧ has_dot = false then isStringNumberLoop str has_digit true
    else if c = '*' ∨ c = '/' ∨ c = '+' ∨ c = '-' then isStringNumberLoop str has_digit has_dot
    else false

/-- `is_string_number` -/
def isStringNumber : List Char → Bool
  | [] => false
  | c :: str =>
    if c = '-' ∨ c = '+' then isStringNumberLoop str false false
    else isStringNumberLoop (c :: str) false false

/-- `while (*expr == ' ') expr++;` -/
def skipSpaces (expr : List Char) : List Char := expr.dropWhile fun c => c = ' '

/-- The loop over repeated signs. -/
def skipSigns (sign : ℤ) : List Char → ℤ × List Char
  | '+' :: expr => skipSigns sign expr
  | '-' :: expr => skipSigns (-sign) expr
  | expr => (sign, expr)

section
variable {F : Type} (A : Arithmetic F)

/-- A term is merged into the result. -/
def merge (op : Char) (result number : F) : F :=
  if op = '+' then A.add result number else if op = '-' then A.sub result number else result

/-- A factor or a divisor; a division by zero leaves the number as it is. -/
def multiply (muldiv : Char) (number next : F) : F :=
  if muldiv = '*' then A.mul number next
  else if A.nonzero next = true then A.div number next
  else number

mutual

/-- `eval_expr_inner`, from the head of the loop on -/
def evalExprInner : ℕ → F → Char → List Char → Option (F × List Char)
  | 0, _, _, _ => none
  | fuel + 1, result, op, expr =>
    if expr = [] then some (result, [])
    else
      let (sign, expr) := skipSigns 1 (skipSpaces expr)
      match operand fuel (skipSpaces expr) with
      | none => none
      | some (number, expr) =>
        match muldivLoop fuel (A.mul number (A.ofSign sign)) expr with
        | none => none
        | some (number, expr) =>
          let result := merge A op result number
          match skipSpaces expr with
          | '+' :: expr => evalExprInner fuel result '+' expr
          | '-' :: expr => evalExprInner fuel result '-' expr
          | ')' :: expr => some (result, ')' :: expr)
          | [] => some (result, [])
          | expr => evalExprInner fuel result '+' expr

/-- A number, or an expression in parentheses. -/
def operand : ℕ → List Char → Option (F × List Char)
  | 0, '(' :: _ => none
  | fuel + 1, '(' :: expr =>
    match evalExprInner fuel A.zero '+' expr with
    | none => none
    | some (number, ')' :: expr) => some (number, expr)
    | some (number, expr) => some (number, expr)
  | _, expr => some (A.strtof expr)

/-- The loop over `*` and `/`. -/
def muldivLoop : ℕ → F → List Char → Option (F × List Char)
  | 0, _, _ => none
  | fuel + 1, number, expr =>
    match skipSpaces expr with
    | [] => some (number, [])
    | muldiv :: expr =>
      if muldiv ≠ '*' ∧ muldiv ≠ '/' then some (number, muldiv :: expr)
      else
        let (next_sign, expr) := skipSigns 1 (skipSpaces expr)
        match operand fuel (skipSpaces expr) with
        | none => none
        | some (next, expr) =>
          muldivLoop fuel (multiply A muldiv number (A.mul next (A.ofSign next_sign))) expr

end

/-- `eval_expr` -/
def evalExpr (fuel : ℕ) (expr : List Char) : Option (F × List Char) :=
  evalExprInner A fuel A.zero '+' expr

end

/-! ## Accepted texts -/

/-- A part of an accepted text from some position on. -/
structure Accepted (s : List Char) : Prop where
  plain : ∀ c ∈ s, Plain c
  one_dot : s.count '.' ≤ 1

theorem Accepted.suffix {s t : List Char} (h : Accepted s) (hst : t <:+ s) : Accepted t :=
  ⟨fun c hc => h.plain c (hst.subset hc), Nat.le_trans (hst.sublist.count_le _) h.one_dot⟩

theorem accepted_loop {str : List Char} {has_digit has_dot : Bool}
    (h : isStringNumberLoop str has_digit has_dot = true) :
    (∀ c ∈ str, Plain c) ∧ str.count '.' + has_dot.toNat ≤ 1 := by
  induction str generalizing has_digit has_dot with
  | nil => exact ⟨fun _ hc => absurd hc List.not_mem_nil, by cases has_dot <;> decide⟩
  | cons c str ih =>
    rw [isStringNumberLoop] at h
    split at h
    · next hdigit =>
      obtain ⟨hplain, hcount⟩ := ih h
      rw [List.count_cons_of_ne (Lib.Numeral.ne_dot_of_isDigit hdigit)]
      exact ⟨List.forall_mem_cons.mpr ⟨Or.inl hdigit, hplain⟩, hcount⟩
    split at h
    · next hdot =>
      obtain ⟨rfl, rfl⟩ := hdot
      obtain ⟨hplain, hcount⟩ := ih h
      rw [List.count_cons_self]
      exact ⟨List.forall_mem_cons.mpr ⟨Or.inr (Or.inl rfl), hplain⟩, hcount⟩
    split at h
    · next hop =>
      obtain ⟨hplain, hcount⟩ := ih h
      have hne : c ≠ '.' := by
        rintro rfl
        exact absurd hop (by decide)
      rw [List.count_cons_of_ne hne]
      exact ⟨List.forall_mem_cons.mpr ⟨Or.inr (Or.inr hop), hplain⟩, hcount⟩
    · exact nomatch h

theorem accepted_of_isStringNumber {str : List Char} (h : isStringNumber str = true) :
    Accepted str := by
  unfold isStringNumber at h
  split at h
  · exact nomatch h
  next c str =>
  split at h
  · next hsign =>
    obtain ⟨hplain, hcount⟩ := accepted_loop h
    have hne : c ≠ '.' := by
      rintro rfl
      exact absurd hsign (by decide)
    refine ⟨List.forall_mem_cons.mpr ⟨?_, hplain⟩, ?_⟩
    · rcases hsign with rfl | rfl
      · exact Or.inr (Or.inr (Or.inr (Or.inr (Or.inr rfl))))
      · exact Or.inr (Or.inr (Or.inr (Or.inr (Or.inl rfl))))
    · rw [List.count_cons_of_ne hne]
      exact hcount
  · obtain ⟨hplain, hcount⟩ := accepted_loop h
    exact ⟨hplain, hcount⟩

/-- The cursor has moved on, and not past a lone dot. -/
structure Ahead (s t : List Char) : Prop where
  suffix : t <:+ s
  lone : loneDot false t = loneDot false s

theorem Ahead.refl (s : List Char) : Ahead s s := ⟨List.suffix_refl s, rfl⟩

theorem Ahead.trans {s t u : List Char} (h : Ahead s t) (h' : Ahead t u) : Ahead s u :=
  ⟨h'.suffix.trans h.suffix, h'.lone.trans h.lone⟩

theorem Ahead.length_le {s t : List Char} (h : Ahead s t) : t.length ≤ s.length :=
  h.suffix.length_le

/-- A character that is no part of a numeral. -/
theorem ahead_cons {c : Char} (hdigit : c.isDigit = false) (hdot : c ≠ '.') (s : List Char) :
    Ahead (c :: s) s := by
  refine ⟨List.suffix_cons c s, ?_⟩
  rw [Lib.Numeral.loneDot_cons hdot, hdigit]

theorem skipSpaces_plain {s : List Char} (h : ∀ c ∈ s, Plain c) : skipSpaces s = s := by
  unfold skipSpaces
  cases s with
  | nil => rfl
  | cons c s =>
    have hc : c ≠ ' ' := by
      rintro rfl
      exact absurd (h ' ' List.mem_cons_self) (by unfold Plain; decide)
    rw [List.dropWhile_cons, if_neg (by simpa using hc)]

theorem ahead_skipSigns (sign : ℤ) (s : List Char) : Ahead s (skipSigns sign s).2 := by
  fun_induction skipSigns sign s with
  | case1 sign s ih => exact (ahead_cons (by decide) (by decide) s).trans ih
  | case2 sign s ih => exact (ahead_cons (by decide) (by decide) s).trans ih
  | case3 sign s => exact .refl s

theorem head_skipSigns (sign : ℤ) (s : List Char) :
    (skipSigns sign s).2.head? ≠ some '+' ∧ (skipSigns sign s).2.head? ≠ some '-' := by
  fun_induction skipSigns sign s with
  | case1 sign s ih => exact ih
  | case2 sign s ih => exact ih
  | case3 sign s hplus hminus =>
    refine ⟨fun hhead => ?_, fun hhead => ?_⟩
    · obtain ⟨t, rfl⟩ := List.head?_eq_some_iff.mp hhead
      exact hplus t rfl
    · obtain ⟨t, rfl⟩ := List.head?_eq_some_iff.mp hhead
      exact hminus t rfl

section
variable {F : Type} {A : Arithmetic F} {s : List Char}

theorem operand_plain (h : ∀ c ∈ s, Plain c) (fuel : ℕ) : operand A fuel s = some (A.strtof s) := by
  unfold operand
  split
  · exact absurd (h '(' List.mem_cons_self) (by unfold Plain; decide)
  · exact absurd (h '(' List.mem_cons_self) (by unfold Plain; decide)
  · rfl

/-- The signs and the number behind them. -/
def signedNumber (A : Arithmetic F) (s : List Char) : F :=
  A.mul (A.strtof (skipSigns 1 s).2).1 (A.ofSign (skipSigns 1 s).1)

/-- The text behind the number. -/
def behindNumber (A : Arithmetic F) (s : List Char) : List Char := (A.strtof (skipSigns 1 s).2).2

/-- Behind the signs a number is read. -/
theorem behindNumber_eq (A : Arithmetic F) (h : Accepted s) :
    behindNumber A s = mantissaRest (skipSigns 1 s).2 := by
  have haccepted := h.suffix (ahead_skipSigns 1 s).suffix
  unfold behindNumber
  rw [A.strtof_rest _ haccepted.plain]
  exact Lib.Numeral.numeralRest_eq (head_skipSigns 1 s).1 (head_skipSigns 1 s).2

theorem ahead_mantissaRest (h : Accepted s) : Ahead s (mantissaRest s) :=
  ⟨Lib.Numeral.mantissaRest_suffix s, Lib.Numeral.loneDot_mantissaRest h.one_dot⟩

theorem ahead_number (A : Arithmetic F) (h : Accepted s) : Ahead s (behindNumber A s) := by
  rw [behindNumber_eq A h]
  exact (ahead_skipSigns 1 s).trans (ahead_mantissaRest (h.suffix (ahead_skipSigns 1 s).suffix))

/-! ## The loops -/

theorem muldivLoop_end (h : Accepted s) (hmul : s.head? ≠ some '*') (hdiv : s.head? ≠ some '/')
    (fuel : ℕ) (number : F) : muldivLoop A (fuel + 1) number s = some (number, s) := by
  rw [muldivLoop, skipSpaces_plain h.plain]
  cases s with
  | nil => rfl
  | cons c s =>
    dsimp only
    rw [if_pos ⟨fun heq => hmul (heq ▸ rfl), fun heq => hdiv (heq ▸ rfl)⟩]

theorem muldivLoop_op {c : Char} (hop : c = '*' ∨ c = '/') (h : Accepted (c :: s))
    (fuel : ℕ) (number : F) :
    muldivLoop A (fuel + 1) number (c :: s) =
      muldivLoop A fuel (multiply A c number (signedNumber A s)) (behindNumber A s) := by
  have hs : Accepted s := h.suffix (List.suffix_cons c s)
  have hnumber := hs.suffix (ahead_skipSigns 1 s).suffix
  have hgo : ¬ (c ≠ '*' ∧ c ≠ '/') := fun hne => hop.elim hne.1 hne.2
  rw [muldivLoop, skipSpaces_plain h.plain]
  dsimp only
  rw [if_neg hgo, skipSpaces_plain hs.plain, skipSpaces_plain hnumber.plain,
    operand_plain hnumber.plain]
  rfl

/-- A text starts with an operator of the loop, or it ends the loop. -/
theorem op_or_end (s : List Char) : (∃ c t, s = c :: t ∧ (c = '*' ∨ c = '/')) ∨
    (s.head? ≠ some '*' ∧ s.head? ≠ some '/') := by
  cases s with
  | nil => exact Or.inr ⟨nofun, nofun⟩
  | cons c s =>
    by_cases hop : c = '*' ∨ c = '/'
    · exact Or.inl ⟨c, s, rfl, hop⟩
    · rw [not_or] at hop
      exact Or.inr ⟨fun heq => hop.1 (Option.some.inj heq), fun heq => hop.2 (Option.some.inj heq)⟩

/-- One operator and its number. -/
theorem ahead_op (A : Arithmetic F) {c : Char} (hop : c = '*' ∨ c = '/') (h : Accepted (c :: s)) :
    Ahead (c :: s) (behindNumber A s) := by
  have hs : Accepted s := h.suffix (List.suffix_cons c s)
  have hcons : Ahead (c :: s) s := by
    rcases hop with rfl | rfl
    · exact ahead_cons (by decide) (by decide) s
    · exact ahead_cons (by decide) (by decide) s
  exact hcons.trans (ahead_number A hs)

theorem ahead_muldivLoop (h : Accepted s) {fuel : ℕ} {number number' : F} {t : List Char}
    (hloop : muldivLoop A fuel number s = some (number', t)) : Ahead s t := by
  induction fuel generalizing s number with
  | zero => exact nomatch hloop
  | succ fuel ih =>
    rcases op_or_end s with ⟨c, s, rfl, hop⟩ | ⟨hmul, hdiv⟩
    · have hahead := ahead_op A hop h
      rw [muldivLoop_op hop h] at hloop
      exact hahead.trans (ih (h.suffix hahead.suffix) hloop)
    · rw [muldivLoop_end h hmul hdiv] at hloop
      obtain ⟨-, rfl⟩ := Prod.mk.inj (Option.some.inj hloop)
      exact .refl s

/-- The loop takes at least its operator. -/
theorem length_muldivLoop_lt {c : Char} (hop : c = '*' ∨ c = '/') (h : Accepted (c :: s)) {fuel : ℕ}
    {number number' : F} {t : List Char}
    (hloop : muldivLoop A fuel number (c :: s) = some (number', t)) :
    t.length < (c :: s).length := by
  cases fuel with
  | zero => exact nomatch hloop
  | succ fuel =>
    have hs : Accepted s := h.suffix (List.suffix_cons c s)
    have hnumber := ahead_number A hs
    rw [muldivLoop_op hop h] at hloop
    have hle := (ahead_muldivLoop (hs.suffix hnumber.suffix) hloop).length_le
    exact Nat.lt_succ_of_le (Nat.le_trans hle hnumber.length_le)

theorem muldivLoop_returns (h : Accepted s) {fuel : ℕ} (hfuel : s.length < fuel) (number : F) :
    ∃ number' t, muldivLoop A fuel number s = some (number', t) := by
  induction fuel generalizing s number with
  | zero => exact absurd hfuel (Nat.not_lt_zero _)
  | succ fuel ih =>
    rcases op_or_end s with ⟨c, s, rfl, hop⟩ | ⟨hmul, hdiv⟩
    · have hs : Accepted s := h.suffix (List.suffix_cons c s)
      have hnumber := ahead_number A hs
      rw [muldivLoop_op hop h]
      refine ih (hs.suffix hnumber.suffix) (Nat.lt_of_le_of_lt hnumber.length_le ?_) _
      rw [List.length_cons] at hfuel
      exact Nat.lt_of_succ_lt_succ hfuel
    · exact ⟨number, s, muldivLoop_end h hmul hdiv fuel number⟩

/-- Where the next round of the outer loop starts. -/
def afterSign : List Char → List Char
  | '+' :: s => s
  | '-' :: s => s
  | s => s

theorem ahead_afterSign (s : List Char) : Ahead s (afterSign s) := by
  unfold afterSign
  split
  · exact ahead_cons (by decide) (by decide) _
  · exact ahead_cons (by decide) (by decide) _
  · exact .refl s

/-- The operator that it starts with. -/
def nextOp : List Char → Char
  | '-' :: _ => '-'
  | _ => '+'

/-- **One round** of the outer loop. -/
theorem evalExprInner_succ (h : Accepted s) (hs : s ≠ []) (fuel : ℕ) (result : F) (op : Char) :
    evalExprInner A (fuel + 1) result op s =
      match muldivLoop A fuel (signedNumber A s) (behindNumber A s) with
      | none => none
      | some (number, t) =>
        if t = [] then some (merge A op result number, [])
        else evalExprInner A fuel (merge A op result number) (nextOp t) (afterSign t) := by
  have hnumber := h.suffix (ahead_skipSigns 1 s).suffix
  have hrest := h.suffix (ahead_number A h).suffix
  rw [evalExprInner, if_neg hs, skipSpaces_plain h.plain]
  dsimp only
  rw [skipSpaces_plain hnumber.plain, operand_plain hnumber.plain]
  unfold signedNumber behindNumber at *
  dsimp only
  split
  · next heq => rw [heq]
  next number t heq =>
  have ht := hrest.suffix (ahead_muldivLoop hrest heq).suffix
  rw [heq]
  dsimp only
  rw [skipSpaces_plain ht.plain]
  split
  · rw [if_neg (List.cons_ne_nil _ _)]
    rfl
  · rw [if_neg (List.cons_ne_nil _ _)]
    rfl
  · exact absurd (ht.plain ')' List.mem_cons_self) (by unfold Plain; decide)
  · rw [if_pos rfl]
  · next hplus hminus _ hnil =>
    rw [if_neg hnil, nextOp, afterSign]
    · exact hplus
    · exact hminus
    · exact hminus

/-- **Progress**: a round takes a character, unless a dot stands alone. -/
theorem length_round_lt (h : Accepted s) (hs : s ≠ []) (hlone : loneDot false s = false) {fuel : ℕ}
    {number number' : F} {t : List Char}
    (hloop : muldivLoop A fuel number (behindNumber A s) = some (number', t)) :
    t.length < s.length := by
  have hsigns := ahead_skipSigns 1 s
  have hrest := h.suffix (ahead_number A h).suffix
  have hle := (ahead_muldivLoop hrest hloop).length_le
  rw [behindNumber_eq A h] at hloop hle
  have hmantissa := ahead_mantissaRest (h.suffix hsigns.suffix)
  rcases Nat.lt_or_ge (skipSigns 1 s).2.length s.length with hlt | hge
  · exact Nat.lt_of_le_of_lt (Nat.le_trans hle hmantissa.length_le) hlt
  -- no sign: the number or an operator of the inner loop comes first
  have hsame : (skipSigns 1 s).2 = s :=
    hsigns.suffix.eq_of_length (Nat.le_antisymm hsigns.length_le hge)
  obtain ⟨hplus, hminus⟩ := head_skipSigns 1 s
  rw [hsame] at hloop hle hmantissa hplus hminus
  cases s with
  | nil => exact absurd rfl hs
  | cons c s =>
    have hop (hc : c = '*' ∨ c = '/') : t.length < (c :: s).length := by
      rcases Nat.lt_or_ge (mantissaRest (c :: s)).length (c :: s).length with hlt | hge'
      · exact Nat.lt_of_le_of_lt hle hlt
      · rw [hmantissa.suffix.eq_of_length (Nat.le_antisymm hmantissa.length_le hge')] at hloop
        exact length_muldivLoop_lt hc h hloop
    rcases h.plain c List.mem_cons_self with hc | hc | hc | hc | rfl | rfl
    · exact Nat.lt_of_le_of_lt hle (Lib.Numeral.length_mantissaRest_lt (Or.inl hc) hlone)
    · exact Nat.lt_of_le_of_lt hle (Lib.Numeral.length_mantissaRest_lt (Or.inr hc) hlone)
    · exact hop (Or.inl hc)
    · exact hop (Or.inr hc)
    · exact absurd rfl hplus
    · exact absurd rfl hminus

/-- **Returns**: without a lone dot there is a result. -/
theorem evalExprInner_returns (h : Accepted s) (hlone : loneDot false s = false) {fuel : ℕ}
    (hfuel : s.length + 2 ≤ fuel) (result : F) (op : Char) :
    (evalExprInner A fuel result op s).isSome = true := by
  induction fuel generalizing s result op with
  | zero => exact absurd hfuel (by omega)
  | succ fuel ih =>
    by_cases hs : s = []
    · rw [evalExprInner, if_pos hs]
      rfl
    have hnumber := ahead_number A h
    have hrest := h.suffix hnumber.suffix
    obtain ⟨number, t, hloop⟩ := muldivLoop_returns (A := A) hrest
      (Nat.lt_of_le_of_lt hnumber.length_le (by omega : s.length < fuel)) (signedNumber A s)
    rw [evalExprInner_succ h hs, hloop]
    dsimp only
    split
    · rfl
    have hahead := (hnumber.trans (ahead_muldivLoop hrest hloop)).trans (ahead_afterSign t)
    have hlt := length_round_lt h hs hlone hloop
    have hle := (ahead_afterSign t).length_le
    exact ih (h.suffix hahead.suffix) (hahead.lone.trans hlone) (by omega) _ _

/-- **Hangs**: a lone dot is reached, and no branch takes it. -/
theorem evalExprInner_hangs (h : Accepted s) (hlone : loneDot false s = true) (fuel : ℕ)
    (result : F) (op : Char) : evalExprInner A fuel result op s = none := by
  induction fuel generalizing s result op with
  | zero => rfl
  | succ fuel ih =>
    have hs : s ≠ [] := by
      rintro rfl
      exact nomatch hlone
    have hnumber := ahead_number A h
    have hrest := h.suffix hnumber.suffix
    rw [evalExprInner_succ h hs]
    split
    · rfl
    next number t hloop =>
    have hahead := hnumber.trans (ahead_muldivLoop hrest hloop)
    have ht : t ≠ [] := by
      rintro rfl
      exact nomatch hahead.lone.trans hlone
    have hnext := hahead.trans (ahead_afterSign t)
    rw [if_neg ht]
    exact ih (h.suffix hnext.suffix) (hnext.lone.trans hlone) _ _

theorem evalExpr_returns_iff (A : Arithmetic F) (h : Accepted s) :
    (∃ fuel, (evalExpr A fuel s).isSome = true) ↔ loneDot false s = false := by
  constructor
  · rintro ⟨fuel, hsome⟩
    by_contra hlone
    rw [Bool.not_eq_false] at hlone
    unfold evalExpr at hsome
    rw [evalExprInner_hangs h hlone] at hsome
    exact nomatch hsome
  · exact fun hlone => ⟨_, evalExprInner_returns h hlone (Nat.le_refl _) _ _⟩

end

end Atoman.Shell
