import Mathlib.Data.Nat.Basic
import Mathlib.Tactic.IntervalCases
import Mathlib.Tactic.Ring

/-!
# Little-endian words

Words of two and four bytes, least significant byte first. Reading is positional
and total: a position behind the end reads as zero, so a caller checks lengths.
-/

namespace Atoman.Lib

/-- The bytes of a 16-bit word. -/
def u16Le (v : UInt16) : List UInt8 := [v.toUInt8, (v >>> 8).toUInt8]

/-- The bytes of a 32-bit word. -/
def u32Le (v : UInt32) : List UInt8 :=
  [v.toUInt8, (v >>> 8).toUInt8, (v >>> 16).toUInt8, (v >>> 24).toUInt8]

/-- The 16-bit word whose two bytes are given. -/
def u16OfBytes (b₀ b₁ : UInt8) : UInt16 := b₀.toUInt16 ||| (b₁.toUInt16 <<< 8)

/-- The 32-bit word whose four bytes are given. -/
def u32OfBytes (b₀ b₁ b₂ b₃ : UInt8) : UInt32 :=
  b₀.toUInt32 ||| (b₁.toUInt32 <<< 8) ||| (b₂.toUInt32 <<< 16) ||| (b₃.toUInt32 <<< 24)

/-- The 16-bit word at position `i`. -/
def readU16Le (p : List UInt8) (i : ℕ) : UInt16 := u16OfBytes (p.getD i 0) (p.getD (i + 1) 0)

/-- The 32-bit word at position `i`. -/
def readU32Le (p : List UInt8) (i : ℕ) : UInt32 :=
  u32OfBytes (p.getD i 0) (p.getD (i + 1) 0) (p.getD (i + 2) 0) (p.getD (i + 3) 0)

@[simp] theorem length_u16Le (v : UInt16) : (u16Le v).length = 2 := rfl
@[simp] theorem length_u32Le (v : UInt32) : (u32Le v).length = 4 := rfl

theorem u16OfBytes_u16Le (v : UInt16) : u16OfBytes v.toUInt8 (v >>> 8).toUInt8 = v := by
  apply UInt16.toBitVec_inj.mp
  apply BitVec.eq_of_getLsbD_eq
  intro i hi
  simp only [u16OfBytes, UInt16.toBitVec_or, UInt16.toBitVec_shiftLeft, UInt8.toBitVec_toUInt16,
    UInt16.toBitVec_toUInt8, BitVec.getLsbD_or, BitVec.getLsbD_setWidth,
    UInt16.toBitVec_shiftRight]
  interval_cases i <;> simp

theorem u32OfBytes_u32Le (v : UInt32) :
    u32OfBytes v.toUInt8 (v >>> 8).toUInt8 (v >>> 16).toUInt8 (v >>> 24).toUInt8 = v := by
  apply UInt32.toBitVec_inj.mp
  apply BitVec.eq_of_getLsbD_eq
  intro i hi
  simp only [u32OfBytes, UInt32.toBitVec_or, UInt32.toBitVec_shiftLeft, UInt8.toBitVec_toUInt32,
    UInt32.toBitVec_toUInt8, BitVec.getLsbD_or, BitVec.getLsbD_setWidth,
    UInt32.toBitVec_shiftRight]
  interval_cases i <;> simp

/-- The most significant byte can be read off the word. -/
theorem u32OfBytes_high (b₀ b₁ b₂ b₃ : UInt8) : (u32OfBytes b₀ b₁ b₂ b₃ >>> 24).toUInt8 = b₃ := by
  apply UInt8.toBitVec_inj.mp
  ext i hi
  simp [u32OfBytes]
  interval_cases i <;> simp

/-- The least significant byte can be read off the word. -/
theorem u32OfBytes_low (b₀ b₁ b₂ b₃ : UInt8) : (u32OfBytes b₀ b₁ b₂ b₃).toUInt8 = b₀ := by
  apply UInt8.toBitVec_inj.mp
  ext i hi
  simp [u32OfBytes]

/-- The bytes of a word that was put together from them. -/
theorem u16Le_u16OfBytes (b₀ b₁ : UInt8) : u16Le (u16OfBytes b₀ b₁) = [b₀, b₁] := by
  have hlow : (u16OfBytes b₀ b₁).toUInt8 = b₀ := by
    apply UInt8.toBitVec_inj.mp
    ext i hi
    simp [u16OfBytes]
  have hhigh : (u16OfBytes b₀ b₁ >>> 8).toUInt8 = b₁ := by
    apply UInt8.toBitVec_inj.mp
    ext i hi
    simp [u16OfBytes]
    interval_cases i <;> simp
  rw [u16Le, hlow, hhigh]

theorem u32Le_u32OfBytes (b₀ b₁ b₂ b₃ : UInt8) :
    u32Le (u32OfBytes b₀ b₁ b₂ b₃) = [b₀, b₁, b₂, b₃] := by
  have hsecond : (u32OfBytes b₀ b₁ b₂ b₃ >>> 8).toUInt8 = b₁ := by
    apply UInt8.toBitVec_inj.mp
    ext i hi
    simp [u32OfBytes]
    interval_cases i <;> simp
  have hthird : (u32OfBytes b₀ b₁ b₂ b₃ >>> 16).toUInt8 = b₂ := by
    apply UInt8.toBitVec_inj.mp
    ext i hi
    simp [u32OfBytes]
    interval_cases i <;> simp
  rw [u32Le, u32OfBytes_low, hsecond, hthird, u32OfBytes_high]

theorem u16Le_readU16Le {p : List UInt8} {i : ℕ} (h : i + 2 ≤ p.length) :
    u16Le (readU16Le p i) = (p.drop i).take 2 := by
  rw [readU16Le, u16Le_u16OfBytes]
  refine List.ext_getElem (by simp; omega) fun k hk hk' => ?_
  simp only [List.length_cons, List.length_nil] at hk
  rw [List.getElem_take, List.getElem_drop]
  interval_cases k <;> simp <;> rw [List.getElem?_eq_getElem (by omega)] <;> rfl

theorem u32Le_readU32Le {p : List UInt8} {i : ℕ} (h : i + 4 ≤ p.length) :
    u32Le (readU32Le p i) = (p.drop i).take 4 := by
  rw [readU32Le, u32Le_u32OfBytes]
  refine List.ext_getElem (by simp; omega) fun k hk hk' => ?_
  simp only [List.length_cons, List.length_nil] at hk
  rw [List.getElem_take, List.getElem_drop]
  interval_cases k <;> simp <;> rw [List.getElem?_eq_getElem (by omega)] <;> rfl

/-- A word reads back at the position it was placed at. -/
theorem readU16Le_append (a b : List UInt8) (v : UInt16) :
    readU16Le (a ++ u16Le v ++ b) a.length = v := by
  simp [readU16Le, u16Le, u16OfBytes_u16Le]

theorem readU32Le_append (a b : List UInt8) (v : UInt32) :
    readU32Le (a ++ u32Le v ++ b) a.length = v := by
  simp [readU32Le, u32Le, u32OfBytes_u32Le]

/-- A word of a sequence reads back at its place. -/
theorem readU32Le_flatMap (words : List UInt32) (rest : List UInt8) (i : ℕ) (h : i < words.length) :
    readU32Le (words.flatMap u32Le ++ rest) (4 * i) = words[i] := by
  have hlength : ∀ ws : List UInt32, (ws.flatMap u32Le).length = 4 * ws.length := by
    intro ws
    induction ws with
    | nil => rfl
    | cons w ws ih =>
      rw [List.flatMap_cons, List.length_append, ih, length_u32Le, List.length_cons]
      omega
  have hsplit : words = words.take i ++ words[i] :: words.drop (i + 1) := by simp
  have htake : ((words.take i).flatMap u32Le).length = 4 * i := by
    rw [hlength, List.length_take_of_le (Nat.le_of_lt h)]
  have hread := readU32Le_append ((words.take i).flatMap u32Le)
    ((words.drop (i + 1)).flatMap u32Le ++ rest) words[i]
  rw [htake] at hread
  conv_lhs => rw [hsplit]
  rw [List.flatMap_append, List.flatMap_cons]
  simpa only [List.append_assoc] using hread

end Atoman.Lib
