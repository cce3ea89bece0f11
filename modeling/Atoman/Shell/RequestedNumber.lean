import Atoman.Shell.Text

/-!
# The requested number

A text asks for the integer that its digits or its exact evaluation give. Where every value
on the way is one of single precision, the evaluation in `float` follows the exact one.
-/

namespace Atoman.Shell
open Lib (Memory)
open Lib.Numeral (numeralValue numeralRest)

/-- The exact arithmetic. -/
def exact : Arithmetic ℚ where
  zero := 0
  ofSign sign := sign
  add := (· + ·)
  sub := (· - ·)
  mul := (· * ·)
  div := (· / ·)
  nonzero a := a ≠ 0
  strtof s := (numeralValue s, numeralRest s)
  strtof_rest := fun _ _ => rfl

theorem exact_exact : exact.Exact some where
  zero := rfl
  sign := fun _ _ => rfl
  add := by
    rintro _ _ x y ⟨⟩ ⟨⟩ _
    rfl
  sub := by
    rintro _ _ x y ⟨⟩ ⟨⟩ _
    rfl
  mul := by
    rintro _ _ x y ⟨⟩ ⟨⟩ _
    rfl
  div := by
    rintro _ _ x y ⟨⟩ ⟨⟩ _ _
    rfl
  nonzero := by
    rintro _ x ⟨⟩
    simp [exact]
  strtof := fun _ _ _ => rfl

/-- Where the value is one of single precision, the other arithmetic has it. -/
def Follows {F : Type} (value : F → Option ℚ) (a : Option ℚ) (b : F) : Prop :=
  ∀ q, a = some q → value b = some q

section
variable {F : Type} {A : Arithmetic F} {value : F → Option ℚ} {a b : Option ℚ} {a' b' : F}
  {s : List Char}

theorem eq_of_check {q r : ℚ} (h : check q = some r) : IsSingle q ∧ q = r := by
  unfold check at h
  split at h
  · next hq => exact ⟨hq, Option.some.inj h⟩
  · exact nomatch h

theorem Follows.add (hA : A.Exact value) (ha : Follows value a a') (hb : Follows value b b') :
    Follows value (single.add a b) (A.add a' b') := by
  intro q hq
  obtain ⟨x, rfl, hx⟩ := Option.bind_eq_some_iff.mp hq
  obtain ⟨y, rfl, hy⟩ := Option.bind_eq_some_iff.mp hx
  obtain ⟨hsingle, rfl⟩ := eq_of_check hy
  exact hA.add a' b' x y (ha x rfl) (hb y rfl) hsingle

theorem Follows.sub (hA : A.Exact value) (ha : Follows value a a') (hb : Follows value b b') :
    Follows value (single.sub a b) (A.sub a' b') := by
  intro q hq
  obtain ⟨x, rfl, hx⟩ := Option.bind_eq_some_iff.mp hq
  obtain ⟨y, rfl, hy⟩ := Option.bind_eq_some_iff.mp hx
  obtain ⟨hsingle, rfl⟩ := eq_of_check hy
  exact hA.sub a' b' x y (ha x rfl) (hb y rfl) hsingle

theorem Follows.mul (hA : A.Exact value) (ha : Follows value a a') (hb : Follows value b b') :
    Follows value (single.mul a b) (A.mul a' b') := by
  intro q hq
  obtain ⟨x, rfl, hx⟩ := Option.bind_eq_some_iff.mp hq
  obtain ⟨y, rfl, hy⟩ := Option.bind_eq_some_iff.mp hx
  obtain ⟨hsingle, rfl⟩ := eq_of_check hy
  exact hA.mul a' b' x y (ha x rfl) (hb y rfl) hsingle

theorem Follows.multiply (hA : A.Exact value) (muldiv : Char) (ha : Follows value a a')
    (hb : Follows value b b') :
    Follows value (multiply single muldiv a b) (multiply A muldiv a' b') := by
  unfold Shell.multiply
  split
  · exact ha.mul hA hb
  cases b with
  | none =>
    -- a divisor out of precision leaves nothing to follow
    intro q hq
    obtain ⟨x, rfl, hx⟩ := Option.bind_eq_some_iff.mp hq
    exact nomatch hx
  | some y =>
    have hy := hb y rfl
    have hzero := (hA.nonzero b' y hy).trans (single_exact.nonzero (some y) y rfl).symm
    by_cases hne : single.nonzero (some y) = true
    · rw [if_pos hne, if_pos (hzero.mpr hne)]
      intro q hq
      obtain ⟨x, rfl, hx⟩ := Option.bind_eq_some_iff.mp hq
      obtain ⟨hsingle, rfl⟩ := eq_of_check hx
      exact hA.div a' b' x y (ha x rfl) hy ((single_exact.nonzero (some y) y rfl).mp hne) hsingle
    · rw [if_neg hne, if_neg (mt hzero.mp hne)]
      exact ha

theorem Follows.merge (hA : A.Exact value) (op : Char) (ha : Follows value a a')
    (hb : Follows value b b') : Follows value (merge single op a b) (merge A op a' b') := by
  unfold Shell.merge
  split
  · exact ha.add hA hb
  split
  · exact ha.sub hA hb
  · exact ha

theorem skipSigns_sign (sign : ℤ) (s : List Char) :
    (skipSigns sign s).1 = sign ∨ (skipSigns sign s).1 = -sign := by
  fun_induction skipSigns sign s with
  | case1 sign s ih => exact ih
  | case2 sign s ih =>
    rw [Int.neg_neg] at ih
    exact ih.symm
  | case3 sign s => exact Or.inl rfl

theorem follows_signedNumber (hA : A.Exact value) (hs : Accepted s) :
    Follows value (signedNumber single s) (signedNumber A s) := by
  have hplain := (hs.suffix (ahead_skipSigns 1 s).suffix).plain
  refine Follows.mul hA (fun q hq => ?_) (fun q hq => ?_)
  · obtain ⟨hsingle, rfl⟩ := eq_of_check hq
    exact hA.strtof _ hplain hsingle
  · rw [hA.sign _ (skipSigns_sign 1 s)]
    exact hq

theorem behindNumber_single (hs : Accepted s) : behindNumber single s = behindNumber A s := by
  rw [behindNumber_eq single hs, behindNumber_eq A hs]

/-- The results of the two arithmetics. -/
def FollowsResult (value : F → Option ℚ) (r : Option ℚ × List Char) (r' : F × List Char) : Prop :=
  Follows value r.1 r'.1 ∧ r.2 = r'.2

theorem follows_muldivLoop (hA : A.Exact value) (hs : Accepted s) (fuel : ℕ)
    (ha : Follows value a a') :
    Option.Rel (FollowsResult value) (muldivLoop single fuel a s) (muldivLoop A fuel a' s) := by
  induction fuel generalizing s a a' with
  | zero => exact .none
  | succ fuel ih =>
    rcases op_or_end s with ⟨c, s, rfl, hop⟩ | ⟨hmul, hdiv⟩
    · have hs' : Accepted s := hs.suffix (List.suffix_cons c s)
      rw [muldivLoop_op hop hs, muldivLoop_op hop hs, behindNumber_single hs']
      exact ih (hs'.suffix (ahead_number A hs').suffix)
        (ha.multiply hA c (follows_signedNumber hA hs'))
    · rw [muldivLoop_end hs hmul hdiv, muldivLoop_end hs hmul hdiv]
      exact .some ⟨ha, rfl⟩

theorem follows_evalExprInner (hA : A.Exact value) (hs : Accepted s) (fuel : ℕ) (op : Char)
    (ha : Follows value a a') :
    Option.Rel (FollowsResult value) (evalExprInner single fuel a op s)
    (evalExprInner A fuel a' op s) := by
  induction fuel generalizing s a a' op with
  | zero => exact .none
  | succ fuel ih =>
    by_cases hnil : s = []
    · rw [evalExprInner, evalExprInner, if_pos hnil, if_pos hnil]
      exact .some ⟨ha, rfl⟩
    have hrest := hs.suffix (ahead_number A hs).suffix
    have hloop := follows_muldivLoop hA hrest fuel (follows_signedNumber hA hs)
    rw [evalExprInner_succ hs hnil, evalExprInner_succ hs hnil, behindNumber_single (A := A) hs]
    cases hcase : muldivLoop A fuel (signedNumber A s) (behindNumber A s) with
    | none =>
      rw [hcase] at hloop
      cases hloop' : muldivLoop single fuel (signedNumber single s) (behindNumber A s) with
      | none => exact .none
      | some r =>
        rw [hloop'] at hloop
        cases hloop
    | some r' =>
      rw [hcase] at hloop
      cases hloop' : muldivLoop single fuel (signedNumber single s) (behindNumber A s) with
      | none =>
        rw [hloop'] at hloop
        cases hloop
      | some r =>
        rw [hloop'] at hloop
        obtain ⟨hnumber, hrest'⟩ := Option.rel_some_some.mp hloop
        have hmerge := ha.merge hA op hnumber
        have hnext := hrest.suffix (ahead_muldivLoop hrest hcase).suffix
        dsimp only
        rw [hrest']
        split
        · exact .some ⟨hmerge, rfl⟩
        · exact ih (hnext.suffix (ahead_afterSign r'.2).suffix) (nextOp r'.2) hmerge

/-- **The evaluation follows** the exact one as long as that is of single precision. -/
theorem evalExpr_eq_of_single (hA : A.Exact value) (hs : isStringNumber s = true) {fuel : ℕ} {q : ℚ}
    {rest : List Char} (h : evalExpr single fuel s = some (some q, rest)) :
    ∃ number, evalExpr A fuel s = some (number, rest) ∧ value number = some q := by
  have hzero : Follows value single.zero A.zero := by
    intro r hr
    rw [hA.zero]
    exact hr
  have hrel := follows_evalExprInner hA (accepted_of_isStringNumber hs) fuel '+' hzero
  unfold evalExpr at h ⊢
  rw [h] at hrel
  cases hcase : evalExprInner A fuel A.zero '+' s with
  | none =>
    rw [hcase] at hrel
    exact nomatch hrel
  | some r =>
    rw [hcase] at hrel
    obtain ⟨hnumber, hrest⟩ := Option.rel_some_some.mp hrel
    refine ⟨r.1, ?_, hnumber q rfl⟩
    rw [show rest = r.2 from hrest]

/-! ## More fuel -/

theorem muldivLoop_mono (hs : Accepted s) {fuel : ℕ} {number : F} {r : F × List Char}
    (h : muldivLoop A fuel number s = some r) : muldivLoop A (fuel + 1) number s = some r := by
  induction fuel generalizing s number with
  | zero => exact nomatch h
  | succ fuel ih =>
    rcases op_or_end s with ⟨c, s, rfl, hop⟩ | ⟨hmul, hdiv⟩
    · have hs' : Accepted s := hs.suffix (List.suffix_cons c s)
      rw [muldivLoop_op hop hs] at h ⊢
      exact ih (hs'.suffix (ahead_number A hs').suffix) h
    · rw [muldivLoop_end hs hmul hdiv] at h ⊢
      exact h

theorem evalExprInner_mono (hs : Accepted s) {fuel : ℕ} {result : F} {op : Char}
    {r : F × List Char} (h : evalExprInner A fuel result op s = some r) :
    evalExprInner A (fuel + 1) result op s = some r := by
  induction fuel generalizing s result op with
  | zero => cases h
  | succ fuel ih =>
    by_cases hnil : s = []
    · rw [evalExprInner, if_pos hnil] at h ⊢
      exact h
    have hrest := hs.suffix (ahead_number A hs).suffix
    rw [evalExprInner_succ hs hnil] at h ⊢
    split at h
    · cases h
    · next number t hloop =>
      rw [muldivLoop_mono hrest hloop]
      dsimp only
      split at h
      · next hdone =>
        rw [if_pos hdone]
        exact h
      · next hgo =>
        have hnext := hrest.suffix (ahead_muldivLoop hrest hloop).suffix
        rw [if_neg hgo]
        exact ih (hnext.suffix (ahead_afterSign t).suffix) h

/-- The result does not depend on the fuel. -/
theorem evalExpr_unique (hs : isStringNumber s = true) {fuel fuel' : ℕ} {r r' : F × List Char}
    (h : evalExpr A fuel s = some r) (h' : evalExpr A fuel' s = some r') : r = r' := by
  have hmono {fuel k : ℕ} {r : F × List Char} (h : evalExpr A fuel s = some r) :
      evalExpr A (fuel + k) s = some r := by
    induction k with
    | zero => exact h
    | succ k ih => exact evalExprInner_mono (accepted_of_isStringNumber hs) ih
  have heq := hmono (k := fuel') h
  rw [Nat.add_comm, hmono h'] at heq
  exact (Option.some.inj heq).symm

end

/-! ## Requests -/

/-- Enough fuel for a text. -/
def fuelOf (value_str : List Char) : ℕ := value_str.length + 2

/-- The integer that a text asks for, if it is accepted. -/
def requested (value_str : List Char) : Option ℤ :=
  if value_str.take 2 = ['0', 'x'] then some (integerOf 16 value_str)
  else if value_str.take 2 = ['0', 'b'] then some (integerOf 2 (value_str.drop 2))
  else if isStringNumber value_str = true then
    (evalExpr exact (fuelOf value_str) value_str).map fun r => truncate r.1
  else none

/-- The request is an integer of `int32_t` and of the type, and every value on the way to it is
one of single precision. -/
structure Fits (type : ShellType) (value_str : List Char) (n : ℤ) : Prop where
  least_int32 : -2 ^ 31 ≤ n
  lt_int32 : n < 2 ^ 31
  least : Lib.ByteInteger.least type.signed type.size ≤ n
  bound : n < Lib.ByteInteger.bound type.signed type.size
  single : isStringNumber value_str = true →
    ∃ q rest, evalExpr single (fuelOf value_str) value_str = some (some q, rest)

section
variable {F : Type} (T : Target F) {value_str : List Char}

theorem strtol_of_fits {s : List Char} {base : ℕ} (hlo : -2 ^ 31 ≤ integerOf base s)
    (hhi : integerOf base s < 2 ^ 31) : (strtol T s base).bmod (2 ^ 32) = integerOf base s := by
  have hmax := T.le_longMax
  have hkept : strtol T s base = integerOf base s := by
    unfold strtol
    omega
  rw [hkept]
  exact Int.bmod_eq_of_le (by omega) (by omega)

/-- **A parsed text** asks for an integer, and a request that fits is what is parsed. -/
theorem requested_of_parse {fuel : ℕ} {intval : ℤ}
    (h : parseInteger T fuel value_str = some (some intval)) :
    ∃ n, requested value_str = some n ∧ ∀ type, Fits type value_str n → intval = n := by
  unfold parseInteger at h
  unfold requested
  split
  · next hhex =>
    rw [if_pos hhex] at h
    refine ⟨_, rfl, fun type hfits => ?_⟩
    rw [← strtol_of_fits T hfits.least_int32 hfits.lt_int32]
    exact (Option.some.inj (Option.some.inj h)).symm
  next hhex =>
  rw [if_neg hhex] at h
  split
  · next hbinary =>
    rw [if_pos hbinary] at h
    refine ⟨_, rfl, fun type hfits => ?_⟩
    rw [← strtol_of_fits T hfits.least_int32 hfits.lt_int32]
    exact (Option.some.inj (Option.some.inj h)).symm
  next hbinary =>
  rw [if_neg hbinary] at h
  split
  case isFalse hnumber =>
    rw [if_neg hnumber] at h
    exact nomatch h
  case isTrue hnumber =>
    rw [if_pos hnumber] at h
    have haccepted := accepted_of_isStringNumber hnumber
    split at h
    · exact nomatch h
    next number rest heval =>
    obtain rfl := Option.some.inj (Option.some.inj h)
    have hlone := (evalExpr_returns_iff T.toArithmetic haccepted).mp ⟨fuel, by rw [heval]; rfl⟩
    obtain ⟨r, hr⟩ := Option.isSome_iff_exists.mp
      (evalExprInner_returns (A := exact) haccepted hlone (Nat.le_refl (fuelOf value_str))
        exact.zero '+')
    have hexact : evalExpr exact (fuelOf value_str) value_str = some r := hr
    refine ⟨truncate r.1, by rw [hexact]; rfl, fun type hfits => ?_⟩
    obtain ⟨q, rest', hsingle⟩ := hfits.single hnumber
    obtain ⟨number', heval', hvalue⟩ := evalExpr_eq_of_single T.exact hnumber hsingle
    obtain ⟨number'', hexact', hq⟩ := evalExpr_eq_of_single exact_exact hnumber hsingle
    obtain rfl : number'' = q := Option.some.inj hq
    have hr1 : r.1 = number'' := congrArg Prod.fst (Option.some.inj (hexact.symm.trans hexact'))
    have hnumber' : number = number' := congrArg Prod.fst (evalExpr_unique hnumber heval heval')
    rw [hr1] at hfits ⊢
    rw [hnumber']
    exact T.toInt32_exact _ _ hvalue hfits.least_int32 hfits.lt_int32

end

end Atoman.Shell
