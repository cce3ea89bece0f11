import Atoman.Lib.Crc
import Atoman.Lib.Loops
import Atoman.Comm.Network
import Atoman.Bootloader.Core

/-!
# The CRC of frames

The table that is filled at run time, the updates that use it, and what they compute: the
CRC16-CCITT of the bytes, bit by bit, whatever the blocks they come in.
-/

namespace Atoman.Comm
open Lib Bootloader

/-! ## The program -/

/-- `crc16_table`, `s_crc16_table_ready` -/
structure CrcTable where
  entries : Vector UInt16 256
  ready : Bool

/-- The static data before the start. -/
def CrcTable.zero : CrcTable := ⟨Vector.replicate 256 0, false⟩

/-- `crc16_init_table` -/
def crc16InitTable (t : CrcTable) : CrcTable :=
  if t.ready then t
  else
    { entries := loop 256
        (fun i => (modifyAt · i fun _ => (crc16Bit^[8] (0, (i.toUInt32 <<< 8).toUInt16)).1))
        t.entries
      ready := true }

namespace CrcTable
variable (t : CrcTable)

/-- `crc16_update` -/
def update (crc : UInt16) (data : UInt8) : UInt16 :=
  (crc <<< 8) ^^^ t.entries[((crc >>> 8).toUInt8 ^^^ data).toNat]!

/-- `crc16_update_block`, `section_crc16_with_crc` -/
def updateBlock (crc : UInt16) (data : List UInt8) : UInt16 := data.foldl t.update crc

/-- `section_crc16` -/
def sectionCrc16 (data : List UInt8) : UInt16 := crc16Final (t.updateBlock crc16Init data)

end CrcTable

/-! ## The checksum -/

/-- The bits of a byte in the order of the line. -/
def lineBits (b : UInt8) : List Bool := Crc.highBits 8 b.toBitVec

/-- `x ^ 16 + x ^ 12 + x ^ 5 + 1` without its leading term. -/
def ccittPoly : BitVec 16 := 0x1021#16

/-- CRC16-CCITT, bit by bit from a register of ones. -/
def ccitt (data : List UInt8) : UInt16 :=
  ⟨(data.flatMap lineBits).foldl (Crc.takeBit ccittPoly) 0xFFFF#16⟩

/-! ## The steps -/

/-- A byte into the register. -/
def takeByte (crc : UInt16) (b : UInt8) : UInt16 := ⟨Crc.feed ccittPoly crc.toBitVec b.toBitVec⟩

theorem and_high_ne_zero (c : UInt16) : c &&& 0x8000 ≠ 0 ↔ c.toBitVec.msb = true := by
  rw [ne_eq, ← UInt16.toBitVec_inj, UInt16.toBitVec_and]
  have hmask : (0x8000 : UInt16).toBitVec = BitVec.twoPow 16 15 := by decide
  rw [hmask, BitVec.and_twoPow]
  show ¬(if c.toBitVec.getLsbD 15 = true then _ else _) = 0#16 ↔ _
  rw [BitVec.msb_eq_getLsbD_last]
  cases c.toBitVec.getLsbD 15 <;> decide

theorem toBitVec_crcShift (c : UInt16) :
    (crcShift c).toBitVec = Crc.shift ccittPoly c.toBitVec := by
  unfold crcShift Crc.shift
  simp only [and_high_ne_zero]
  split <;> rfl

theorem toBitVec_crcShifts (n : ℕ) (c : UInt16) :
    (crcShift^[n] c).toBitVec = (Crc.shift ccittPoly)^[n] c.toBitVec := by
  induction n with
  | zero => rfl
  | succ n ih => rw [Function.iterate_succ_apply', toBitVec_crcShift, ih,
      ← Function.iterate_succ_apply' (Crc.shift ccittPoly)]

theorem toBitVec_place (b : UInt8) : (b.toUInt16 <<< 8).toBitVec = Crc.place 16 b.toBitVec := rfl

/-- `metadata_crc16` adds a byte at the top. -/
theorem shifted_byte (crc : UInt16) (b : UInt8) :
    crcShift^[8] (crc ^^^ (b.toUInt16 <<< 8)) = takeByte crc b := by
  rw [← UInt16.toBitVec_inj, toBitVec_crcShifts, UInt16.toBitVec_xor, toBitVec_place]
  rfl

/-- The entry and the bits still to come, added, move as the register does. -/
theorem crc16Bit_xor (s : UInt16 × UInt16) :
    (crc16Bit s).1 ^^^ (crc16Bit s).2 = crcShift (s.1 ^^^ s.2) := by
  obtain ⟨crc, c⟩ := s
  unfold crc16Bit crcShift
  simp only [UInt16.shiftLeft_xor]
  split
  · rw [UInt16.xor_assoc, UInt16.xor_comm 0x1021, ← UInt16.xor_assoc]
  · rfl

theorem crc16Bits_xor (n : ℕ) (s : UInt16 × UInt16) :
    (crc16Bit^[n] s).1 ^^^ (crc16Bit^[n] s).2 = crcShift^[n] (s.1 ^^^ s.2) := by
  induction n with
  | zero => rfl
  | succ n ih => simp only [Function.iterate_succ_apply', crc16Bit_xor, ih]

theorem crc16Bits_snd (n : ℕ) (s : UInt16 × UInt16) :
    (crc16Bit^[n] s).2.toBitVec = s.2.toBitVec <<< n := by
  induction n with
  | zero => rw [BitVec.shiftLeft_zero]; rfl
  | succ n ih =>
    rw [Function.iterate_succ_apply', BitVec.shiftLeft_add, ← ih]
    rfl

/-- No bit is left after eight, so the entry stands alone. -/
theorem crc16Table_eq (d : UInt8) :
    (crc16Table d).toBitVec = Crc.entry (w := 16) ccittPoly d.toBitVec := by
  have hrest : (crc16Bit^[8] (0, d.toUInt16 <<< 8)).2 = 0 := by
    rw [← UInt16.toBitVec_inj, crc16Bits_snd, toBitVec_place]
    exact Crc.place_shift (by decide) _
  have hsum := crc16Bits_xor 8 (0, d.toUInt16 <<< 8)
  rw [hrest, UInt16.xor_zero, UInt16.zero_xor] at hsum
  rw [crc16Table, hsum, toBitVec_crcShifts, toBitVec_place]
  rfl

/-- `crc16_update` with the entries of the table. -/
theorem crc16Update_eq (crc : UInt16) (b : UInt8) : crc16Update crc b = takeByte crc b := by
  rw [takeByte, Crc.feed_eq_entry ccittPoly (by decide), ← UInt16.toBitVec_inj, crc16Update,
    UInt16.toBitVec_xor, crc16Table_eq]
  rfl

/-! ## The table as it is filled -/

theorem ready_crc16InitTable (t : CrcTable) : (crc16InitTable t).ready = true := by
  unfold crc16InitTable
  split
  · assumption
  · rfl

/-- Every call of `crc16_init_table` but the first returns at once. -/
theorem crc16InitTable_iterate (n : ℕ) (t : CrcTable) :
    crc16InitTable^[n + 1] t = crc16InitTable t := by
  induction n with
  | zero => rfl
  | succ n ih =>
    rw [Function.iterate_succ_apply', ih, crc16InitTable, if_pos (ready_crc16InitTable t)]

/-- The entry for a byte is the one the model of the protocols computes. -/
theorem entries_crc16InitTable (d : UInt8) :
    (crc16InitTable CrcTable.zero).entries[d.toNat]! = crc16Table d := by
  have hd : d.toNat < 256 := d.toNat_lt
  have hindex : (d.toNat.toUInt32 <<< 8).toUInt16 = d.toUInt16 <<< 8 := by
    rw [← UInt16.toNat_inj]
    simp
  have hloop := getElem!_loop_modifyAt (Vector.replicate 256 (0 : UInt16))
    (fun i _ => (crc16Bit^[8] (0, (i.toUInt32 <<< 8).toUInt16)).1) 0 256 d.toNat (Nat.le_refl _)
  rw [if_pos ⟨Nat.zero_le _, by omega⟩, Nat.sub_zero, hindex] at hloop
  exact hloop

section filled
variable (calls : ℕ)

/-- The table after the calls of `crc16_init_table`, the one of the start and any others. -/
def filledTable : CrcTable := crc16InitTable^[calls + 1] CrcTable.zero

theorem filledTable_update (crc : UInt16) (b : UInt8) :
    (filledTable calls).update crc b = takeByte crc b := by
  rw [← crc16Update_eq, CrcTable.update, filledTable, crc16InitTable_iterate,
    entries_crc16InitTable, crc16Update]

theorem filledTable_updateBlock (crc : UInt16) (data : List UInt8) :
    (filledTable calls).updateBlock crc data = data.foldl takeByte crc := by
  rw [CrcTable.updateBlock, funext₂ (filledTable_update calls)]

end filled

/-! ## Agreement -/

theorem ccitt_eq (data : List UInt8) : ccitt data = data.foldl takeByte 0xFFFF := by
  have hfold : ∀ (crc : UInt16), (data.flatMap lineBits).foldl (Crc.takeBit ccittPoly)
      crc.toBitVec = (data.foldl takeByte crc).toBitVec := by
    induction data with
    | nil => exact fun crc => rfl
    | cons b data ih =>
      intro crc
      rw [List.flatMap_cons, List.foldl_append, lineBits, Crc.foldl_takeBit ccittPoly (by decide)]
      exact ih (takeByte crc b)
  exact UInt16.toBitVec_inj.mp (hfold 0xFFFF)

theorem metadataCrc16_eq (data : List UInt8) : metadataCrc16 data = data.foldl takeByte 0xFFFF := by
  rw [metadataCrc16, funext₂ shifted_byte]

/-- The bytes may come in any blocks. -/
theorem filledTable_blocks (calls : ℕ) (crc : UInt16) (blocks : List (List UInt8)) :
    blocks.foldl (filledTable calls).updateBlock crc =
      (filledTable calls).updateBlock crc blocks.flatten := by
  induction blocks generalizing crc with
  | nil => rfl
  | cons block blocks ih =>
    rw [List.foldl_cons, ih, List.flatten_cons, CrcTable.updateBlock, CrcTable.updateBlock,
      CrcTable.updateBlock, List.foldl_append]

/-- **One checksum.** With the table filled, however often, any blocks give the CRC16-CCITT of
the bytes, as do `section_crc16` and the loader's `metadata_crc16` over all of them. -/
theorem crc16_agreement (calls : ℕ) (blocks : List (List UInt8)) :
    blocks.foldl (filledTable calls).updateBlock crc16Init = ccitt blocks.flatten ∧
      (filledTable calls).sectionCrc16 blocks.flatten = ccitt blocks.flatten ∧
      metadataCrc16 blocks.flatten = ccitt blocks.flatten ∧
      ∀ crc, blocks.foldl (filledTable calls).updateBlock crc =
        (filledTable calls).updateBlock crc blocks.flatten := by
  have hblock : (filledTable calls).updateBlock crc16Init blocks.flatten =
      ccitt blocks.flatten := by
    rw [filledTable_updateBlock, ccitt_eq]
    rfl
  refine ⟨?_, hblock, ?_, fun crc => filledTable_blocks calls crc blocks⟩
  · rw [filledTable_blocks, hblock]
  · rw [metadataCrc16_eq, ccitt_eq]

example : ccitt [0x31, 0x32, 0x33, 0x34, 0x35, 0x36, 0x37, 0x38, 0x39] = 0x29B1 := by
  decide +kernel

end Atoman.Comm
