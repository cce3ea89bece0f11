import Atoman.Lib.ByteInteger
import Atoman.Shell.Expression
import Atoman.Shell.Handlers
import Mathlib.Data.Rat.Floor

/-!
# Text writes

The value text of a line is a number with a prefix, or an expression. An integer goes
through `int32_t` to the type of the variable and is clamped there.
-/

namespace Atoman.Shell
open Lib (Memory ByteInteger.load ByteInteger.store ByteInteger.wrap)
open Lib.Numeral (numeralValue numeralRest loneDot)

/-- The conversion to an integer cuts the fraction off. -/
def truncate (q : ℚ) : ℤ := q.num.tdiv q.den

/-- The finite values of single precision: a significand of 24 bits. -/
def IsSingle (q : ℚ) : Prop :=
  q.den ∣ 2 ^ 149 ∧ q.num.natAbs / q.num.natAbs.gcd (2 ^ 104) < 2 ^ 24

instance (q : ℚ) : Decidable (IsSingle q) := inferInstanceAs (Decidable (_ ∧ _))

/-- The arithmetic is exact where the result is a value of single precision. -/
structure Arithmetic.Exact {F : Type} (A : Arithmetic F) (value : F → Option ℚ) : Prop where
  zero : value A.zero = some 0
  sign : ∀ sign : ℤ, sign = 1 ∨ sign = -1 → value (A.ofSign sign) = some (sign : ℚ)
  add : ∀ a b x y, value a = some x → value b = some y → IsSingle (x + y) →
    value (A.add a b) = some (x + y)
  sub : ∀ a b x y, value a = some x → value b = some y → IsSingle (x - y) →
    value (A.sub a b) = some (x - y)
  mul : ∀ a b x y, value a = some x → value b = some y → IsSingle (x * y) →
    value (A.mul a b) = some (x * y)
  div : ∀ a b x y, value a = some x → value b = some y → y ≠ 0 → IsSingle (x / y) →
    value (A.div a b) = some (x / y)
  nonzero : ∀ a x, value a = some x → (A.nonzero a = true ↔ x ≠ 0)
  strtof : ∀ s, (∀ c ∈ s, Plain c) → IsSingle (numeralValue s) →
    value (A.strtof s).1 = some (numeralValue s)

/-- What the text writes use of the platform: `float`, its conversions, and the width of
`long`. -/
structure Target (F : Type) extends Arithmetic F where
  /-- `(int32_t)` -/
  toInt32 : F → ℤ
  gt : F → F → Bool
  lt : F → F → Bool
  ofBits : UInt32 → F
  toBits : F → UInt32
  /-- `LONG_MAX` -/
  longMax : ℤ
  /-- the value of a finite number -/
  value : F → Option ℚ
  le_longMax : 2 ^ 31 - 1 ≤ longMax
  exact : toArithmetic.Exact value
  toInt32_exact : ∀ a x, value a = some x → -2 ^ 31 ≤ truncate x → truncate x < 2 ^ 31 →
    toInt32 a = truncate x

/-! ## Integers with a prefix -/

/-- `isspace` -/
def isSpace (c : Char) : Bool := c = ' ' || (9 ≤ c.toNat && c.toNat ≤ 13)

/-- The value of a digit, if it is one in the base. -/
def digitOf (base : ℕ) (c : Char) : Option ℕ :=
  let digit :=
    if c.isDigit = true then c.toNat - '0'.toNat
    else if 'a'.toNat ≤ c.toNat ∧ c.toNat ≤ 'z'.toNat then c.toNat - 'a'.toNat + 10
    else if 'A'.toNat ≤ c.toNat ∧ c.toNat ≤ 'Z'.toNat then c.toNat - 'A'.toNat + 10
    else base
  if digit < base then some digit else none

/-- The number of the digits in front. -/
def digitsFrom (base : ℕ) (n : ℕ) : List Char → ℕ
  | [] => n
  | c :: s =>
    match digitOf base c with
    | some digit => digitsFrom base (base * n + digit) s
    | none => n

/-- The prefix that base 16 may have in front of its digits. -/
def skipHexPrefix (base : ℕ) : List Char → List Char
  | '0' :: x :: digit :: s =>
    if base = 16 ∧ (x = 'x' ∨ x = 'X') ∧ (digitOf 16 digit).isSome = true then digit :: s
    else '0' :: x :: digit :: s
  | s => s

/-- The integer that a text starts with, without a bound. -/
def integerOf (base : ℕ) (s : List Char) : ℤ :=
  match s.dropWhile isSpace with
  | '-' :: s => -(digitsFrom base 0 (skipHexPrefix base s))
  | '+' :: s => digitsFrom base 0 (skipHexPrefix base s)
  | s => digitsFrom base 0 (skipHexPrefix base s)

section
variable {F : Type} (T : Target F)

/-- `strtol` -/
def strtol (s : List Char) (base : ℕ) : ℤ := max (-T.longMax - 1) (min T.longMax (integerOf base s))

/-- `parse_integer`, with the number that it stores, if it accepts the text -/
def parseInteger (fuel : ℕ) (param : List Char) : Option (Option ℤ) :=
  if param.take 2 = ['0', 'x'] then some (some ((strtol T param 16).bmod (2 ^ 32)))
  else if param.take 2 = ['0', 'b'] then some (some ((strtol T (param.drop 2) 2).bmod (2 ^ 32)))
  else if isStringNumber param = true then
    match evalExpr T.toArithmetic fuel param with
    | none => none
    | some (number, _) => some (some (T.toInt32 number))
  else some none

end

/-! ## Values -/

/-- The signed types -/
def ShellType.signed : ShellType → Bool
  | .int8 | .int16 | .int32 => true
  | _ => false

/-- The types that hold integers. -/
def ShellType.IsInteger (type : ShellType) : Prop := type ≠ .fp32 ∧ type ≠ .cmd

instance (type : ShellType) : Decidable type.IsInteger := inferInstanceAs (Decidable (_ ∧ _))

/-- `shell_core_limit_…` for the integer types -/
def limit (upper lower value : ℤ) : ℤ :=
  if upper < value then upper else if value < lower then lower else value

namespace Item

/-- The integer in an object of the variable's type. -/
def read (p : Item) (object : ℕ) (m : Memory UInt8) : ℤ :=
  ByteInteger.load p.type.signed (m.slice object p.type.size)

/-- The value of the variable. -/
def value (p : Item) (m : Memory UInt8) : ℤ := p.read p.p_var m

def upper (p : Item) (m : Memory UInt8) : ℤ := p.read p.p_max m

def lower (p : Item) (m : Memory UInt8) : ℤ := p.read p.p_min m

end Item

section
variable {F : Type} (T : Target F)

/-- `shell_core_limit_f32` -/
def limitFloat (upper lower value : F) : F :=
  if T.gt value upper = true then upper else if T.lt value lower = true then lower else value

/-- The `float` in an object. -/
def readFloat (object : ℕ) (m : Memory UInt8) : F := T.ofBits (Lib.readU32Le (m.slice object 4) 0)

/-- The integer cases of `shell_write_item_if_needed`: `intval` becomes a value of the type,
and that is clamped and stored. -/
def storeInteger (p : Item) (intval : ℤ) (m : Memory UInt8) : Memory UInt8 :=
  let val := ByteInteger.wrap p.type.signed p.type.size intval
  m.write p.p_var (ByteInteger.store p.type.size (limit (p.upper m) (p.lower m) val))

/-- `shell_write_item_if_needed` up to the callback -/
def storeText (fuel : ℕ) (p : Item) (value_str : List Char) (m : Memory UInt8) :
    Option (Memory UInt8) :=
  match p.type with
  | .cmd => some m
  | .fp32 =>
    if isStringNumber value_str = true then
      match evalExpr T.toArithmetic fuel value_str with
      | none => none
      | some (val, _) =>
        let val := limitFloat T (readFloat T p.p_max m) (readFloat T p.p_min m) val
        some (m.write p.p_var (Lib.u32Le (T.toBits val)))
    else some m
  | _ =>
    match parseInteger T fuel value_str with
    | none => none
    | some none => some m
    | some (some intval) => some (storeInteger p intval m)

/-- `shell_write_item_if_needed` -/
def writeItemIfNeeded (fuel : ℕ) (p : Item) (value_str : List Char) (m : Memory UInt8) :
    Option (Memory UInt8) :=
  (storeText T fuel p value_str m).map p.call

end

/-! ## Every write finishes, or not -/

/-- A text with a prefix is not accepted as a number. -/
theorem take_ne_of_isStringNumber {str : List Char} (h : isStringNumber str = true) :
    str.take 2 ≠ ['0', 'x'] ∧ str.take 2 ≠ ['0', 'b'] := by
  have hplain := (accepted_of_isStringNumber h).plain
  have hne {c : Char} (hc : ¬ Plain c) : str.take 2 ≠ ['0', c] := by
    intro heq
    refine hc (hplain c (List.mem_of_mem_take (i := 2) ?_))
    rw [heq]
    exact List.mem_cons_of_mem _ List.mem_cons_self
  exact ⟨hne (by unfold Plain; decide), hne (by unfold Plain; decide)⟩

section
variable {F : Type} (T : Target F) (p : Item) (value_str : List Char) (m : Memory UInt8)

theorem parseInteger_isSome (fuel : ℕ) :
    (parseInteger T fuel value_str).isSome = true ↔
      (isStringNumber value_str = true →
        (evalExpr T.toArithmetic fuel value_str).isSome = true) := by
  unfold parseInteger
  by_cases hnumber : isStringNumber value_str = true
  · obtain ⟨hhex, hbinary⟩ := take_ne_of_isStringNumber hnumber
    rw [if_neg hhex, if_neg hbinary, if_pos hnumber]
    cases evalExpr T.toArithmetic fuel value_str with
    | none => exact ⟨nofun, fun h => h hnumber⟩
    | some result => exact ⟨fun _ _ => rfl, fun _ => rfl⟩
  · refine ⟨fun _ h => absurd h hnumber, fun _ => ?_⟩
    split
    · rfl
    split
    · rfl
    · rfl

theorem storeText_isSome (fuel : ℕ) :
    (storeText T fuel p value_str m).isSome = true ↔
      (p.type ≠ .cmd → isStringNumber value_str = true →
        (evalExpr T.toArithmetic fuel value_str).isSome = true) := by
  have hparse := parseInteger_isSome T value_str fuel
  unfold storeText
  split
  · next hcmd => exact ⟨fun _ hne => absurd hcmd hne, fun _ => rfl⟩
  · next hfp32 =>
    split
    · next hnumber =>
      cases evalExpr T.toArithmetic fuel value_str with
      | none => exact ⟨nofun, fun h => h (by rw [hfp32]; exact nofun) hnumber⟩
      | some result => exact ⟨fun _ _ _ => rfl, fun _ => rfl⟩
    · next hnumber => exact ⟨fun _ _ h => absurd h hnumber, fun _ => rfl⟩
  · next hcmd _ =>
    cases hcase : parseInteger T fuel value_str with
    | none =>
      rw [hcase] at hparse
      exact ⟨nofun, fun h => hparse.mpr (h hcmd)⟩
    | some parsed =>
      rw [hcase] at hparse
      have hsome := hparse.mp rfl
      cases parsed with
      | none => exact ⟨fun _ _ => hsome, fun _ => rfl⟩
      | some intval => exact ⟨fun _ _ => hsome, fun _ => rfl⟩

end

/-- **The evaluator returns** from every position of an accepted text exactly if no dot stands
alone behind it. A write finishes exactly if its text is no such number. -/
theorem eval_expr_returns {F : Type} (T : Target F) {str front expr : List Char}
    (h : isStringNumber str = true) (hexpr : str = front ++ expr) :
    ((∃ fuel, (evalExpr T.toArithmetic fuel expr).isSome = true) ↔ loneDot false expr = false) ∧
    ∀ (p : Item) (value_str : List Char) (m : Memory UInt8),
      (∃ fuel, (writeItemIfNeeded T fuel p value_str m).isSome = true) ↔
        (p.type ≠ .cmd → isStringNumber value_str = true → loneDot false value_str = false) := by
  have haccepted := (accepted_of_isStringNumber h).suffix ⟨front, hexpr.symm⟩
  refine ⟨evalExpr_returns_iff T.toArithmetic haccepted, fun p value_str m => ?_⟩
  have hstore (fuel : ℕ) : (writeItemIfNeeded T fuel p value_str m).isSome = true ↔
      (p.type ≠ .cmd → isStringNumber value_str = true →
        (evalExpr T.toArithmetic fuel value_str).isSome = true) := by
    unfold writeItemIfNeeded
    rw [Option.isSome_map]
    exact storeText_isSome T p value_str m fuel
  constructor
  · rintro ⟨fuel, hsome⟩ hcmd hnumber
    exact (evalExpr_returns_iff T.toArithmetic (accepted_of_isStringNumber hnumber)).mp
      ⟨fuel, (hstore fuel).mp hsome hcmd hnumber⟩
  · intro hlone
    by_cases hgo : p.type ≠ .cmd ∧ isStringNumber value_str = true
    · obtain ⟨fuel, hsome⟩ := (evalExpr_returns_iff T.toArithmetic
        (accepted_of_isStringNumber hgo.2)).mpr (hlone hgo.1 hgo.2)
      exact ⟨fuel, (hstore fuel).mpr fun _ _ => hsome⟩
    · exact ⟨0, (hstore 0).mpr fun hcmd hnumber => absurd ⟨hcmd, hnumber⟩ hgo⟩

/-! ## An exact platform -/

/-- The value, if it is one of single precision. -/
def check (q : ℚ) : Option ℚ := if IsSingle q then some q else none

/-- The exact arithmetic as far as single precision goes. -/
def single : Arithmetic (Option ℚ) where
  zero := some 0
  ofSign sign := some sign
  add a b := a.bind fun x => b.bind fun y => check (x + y)
  sub a b := a.bind fun x => b.bind fun y => check (x - y)
  mul a b := a.bind fun x => b.bind fun y => check (x * y)
  div a b := a.bind fun x => b.bind fun y => check (x / y)
  nonzero a := a ≠ some 0
  strtof s := (check (numeralValue s), numeralRest s)
  strtof_rest := fun _ _ => rfl

theorem check_of_isSingle {q : ℚ} (h : IsSingle q) : check q = some q := if_pos h

theorem single_exact : single.Exact id where
  zero := rfl
  sign := fun _ _ => rfl
  add := by
    rintro _ _ x y rfl rfl h
    exact check_of_isSingle h
  sub := by
    rintro _ _ x y rfl rfl h
    exact check_of_isSingle h
  mul := by
    rintro _ _ x y rfl rfl h
    exact check_of_isSingle h
  div := by
    rintro _ _ x y rfl rfl _ h
    exact check_of_isSingle h
  nonzero := by
    rintro _ x rfl
    simp [single]
  strtof := fun _ _ h => check_of_isSingle h

/-- A platform with this arithmetic and a `long` of 32 bits; it has no `float` variables. -/
def singleTarget : Target (Option ℚ) where
  toArithmetic := single
  toInt32 a := a.elim 0 truncate
  gt a b := a.any fun x => b.any fun y => y < x
  lt a b := a.any fun x => b.any fun y => x < y
  ofBits _ := none
  toBits _ := 0
  longMax := 2 ^ 31 - 1
  value := id
  le_longMax := le_rfl
  exact := single_exact
  toInt32_exact := by
    rintro _ x rfl _ _
    rfl

theorem eval_expr_returns_demo :
    (∃ fuel, (evalExpr single fuel ['2', '.', '*', '-', '3']).isSome = true) ∧
      ¬ ∃ fuel, (evalExpr single fuel ['.', '*', '-', '3']).isSome = true := by
  have hstr : isStringNumber ['1', '+', '2', '.', '*', '-', '3'] = true := by decide
  have htwo : ['1', '+', '2', '.', '*', '-', '3'] = ['1', '+'] ++ ['2', '.', '*', '-', '3'] := rfl
  have hdot : ['1', '+', '2', '.', '*', '-', '3'] = ['1', '+', '2'] ++ ['.', '*', '-', '3'] := rfl
  refine ⟨?_, fun hreturns => ?_⟩
  · exact (eval_expr_returns singleTarget hstr htwo).1.mpr (by decide)
  · exact absurd ((eval_expr_returns singleTarget hstr hdot).1.mp hreturns) (by decide)

/-- The text `1+.` is accepted, and hangs the evaluator. -/
theorem eval_expr_hangs : isStringNumber ['1', '+', '.'] = true ∧
    ∀ fuel, evalExpr single fuel ['1', '+', '.'] = none :=
  ⟨by decide, fun fuel => evalExprInner_hangs (accepted_of_isStringNumber (by decide))
    (by decide) fuel _ _⟩

end Atoman.Shell
