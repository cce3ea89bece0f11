import Atoman.Lib.LittleEndian
import Atoman.Lib.Memory

/-!
# Parameter records

`demo_storage_record.c`: a record is a data page with the parameters and a commit page
that is written behind it. Each page carries a CRC over the bytes in front of it; a
record counts when both pages are valid and agree. Records are ordered by their
sequence numbers, modulo `2 ^ 32`; zero means that there is none.
-/

namespace Atoman.DemoStorage
open Lib

/-- One bit of the reflected CRC register. -/
def crcBit (crc : UInt32) : UInt32 := (crc >>> 1) ^^^ (0xEDB88320 &&& (0 - (crc &&& 1)))

/-- `flash_integrity_crc32` -/
def crc32 (data : List UInt8) : UInt32 :=
  ~~~ data.foldl (fun crc b => crcBit^[8] (crc ^^^ b.toUInt32)) 0xFFFFFFFF

/-- `demo_storage_params_t` -/
structure Params where
  inputMv : UInt32
  gainMilli : UInt32
  thresholdMv : UInt32
  deriving DecidableEq, Repr

/-- `demo_storage_record_params_valid` -/
def Params.valid (p : Params) : Bool :=
  p.inputMv ≤ 100000 && p.gainMilli ≤ 10000 && p.thresholdMv ≤ 1000000

/-- The magic word of a data page. -/
def dataMagic : UInt32 := 0x31545344
/-- The magic word of a commit page. -/
def commitMagic : UInt32 := 0x31544D43

/-- What the CRC of a data page covers. -/
def dataHead (kind sequence : UInt32) (p : Params) : List UInt8 :=
  [dataMagic, kind, sequence, 12, p.inputMv, p.gainMilli, p.thresholdMv].flatMap u32Le

/-- What the CRC of a commit page covers. -/
def commitHead (kind sequence crc : UInt32) : List UInt8 :=
  [commitMagic, kind, sequence, crc].flatMap u32Le

/-- A page of erased cells with a head and its CRC in front. -/
def sealed (head : List UInt8) (size : ℕ) : List UInt8 :=
  head ++ (u32Le (crc32 head) ++ List.replicate (size - (head.length + 4)) 0xFF)

/-- `demo_storage_record_encode`: the data page and the commit page; a page that is too
small is left as it is. -/
def recordEncode (pages : List UInt8 × List UInt8) (size : ℕ) (kind sequence : UInt32)
    (p : Params) : List UInt8 × List UInt8 :=
  if size < 32 then pages
  else
    (sealed (dataHead kind sequence p) size,
      sealed (commitHead kind sequence (crc32 (dataHead kind sequence p))) size)

/-- `demo_storage_record_decode` -/
def recordDecode (data : List UInt8) : Params :=
  ⟨readU32Le data 16, readU32Le data 20, readU32Le data 24⟩

/-- The CRC behind the first `n` bytes of a page is theirs. -/
def crcMatches (page : List UInt8) (n : ℕ) : Prop := readU32Le page n = crc32 (page.take n)

instance (page : List UInt8) (n : ℕ) : Decidable (crcMatches page n) :=
  inferInstanceAs (Decidable (_ = _))

/-- `demo_storage_record_data_valid` -/
def dataValid (data : List UInt8) (kind : UInt32) : Prop :=
  readU32Le data 0 = dataMagic ∧ readU32Le data 4 = kind ∧ readU32Le data 8 ≠ 0 ∧
    readU32Le data 12 = 12 ∧ crcMatches data 28 ∧ (recordDecode data).valid

instance (data : List UInt8) (kind : UInt32) : Decidable (dataValid data kind) :=
  inferInstanceAs (Decidable (_ ∧ _))

/-- `demo_storage_record_committed` -/
def committed (data commit : List UInt8) : Prop :=
  readU32Le commit 0 = commitMagic ∧ readU32Le commit 4 = readU32Le data 4 ∧
    readU32Le commit 8 = readU32Le data 8 ∧ readU32Le commit 12 = readU32Le data 28 ∧
    crcMatches commit 16

instance (data commit : List UInt8) : Decidable (committed data commit) :=
  inferInstanceAs (Decidable (_ ∧ _))

/-- `demo_storage_record_newer` -/
def newer (candidate current : UInt32) : Prop :=
  candidate ≠ 0 ∧ (current = 0 ∨ (candidate - current ≠ 0 ∧ candidate - current < 0x80000000))

instance (candidate current : UInt32) : Decidable (newer candidate current) :=
  inferInstanceAs (Decidable (_ ∧ _))

/-! ## What is encoded is found -/

section encode
variable (size : ℕ) (kind sequence : UInt32) (p : Params)

theorem sealed_crcMatches (head : List UInt8) : crcMatches (sealed head size) head.length := by
  have htake : (sealed head size).take head.length = head := List.take_left
  rw [crcMatches, htake, sealed, ← List.append_assoc]
  exact readU32Le_append head _ _

theorem length_sealed {head : List UInt8} (h : head.length + 4 ≤ size) :
    (sealed head size).length = size := by
  simp only [sealed, List.length_append, length_u32Le, List.length_replicate]
  omega

/-- **A data page that is encoded is valid**, with its sequence number and parameters. -/
theorem dataValid_sealed (hvalid : p.valid) (hsequence : sequence ≠ 0) :
    dataValid (sealed (dataHead kind sequence p) size) kind ∧
      readU32Le (sealed (dataHead kind sequence p) size) 8 = sequence ∧
      recordDecode (sealed (dataHead kind sequence p) size) = p := by
  have hword := readU32Le_flatMap [dataMagic, kind, sequence, 12, p.inputMv, p.gainMilli,
    p.thresholdMv] (u32Le (crc32 (dataHead kind sequence p)) ++
      List.replicate (size - ((dataHead kind sequence p).length + 4)) 0xFF)
  have hdecode : recordDecode (sealed (dataHead kind sequence p) size) = p := by
    unfold recordDecode
    congr
    · exact hword 4 (by simp)
    · exact hword 5 (by simp)
    · exact hword 6 (by simp)
  have hseq : readU32Le (sealed (dataHead kind sequence p) size) 8 = sequence := hword 2 (by simp)
  refine ⟨⟨hword 0 (by simp), hword 1 (by simp), ?_, hword 3 (by simp), sealed_crcMatches _ _, ?_⟩,
    hseq, hdecode⟩
  · rwa [hseq]
  · rwa [hdecode]

/-- **The commit page of a record agrees with its data page.** -/
theorem committed_sealed :
    committed (sealed (dataHead kind sequence p) size)
      (sealed (commitHead kind sequence (crc32 (dataHead kind sequence p))) size) := by
  have hdata := readU32Le_flatMap [dataMagic, kind, sequence, 12, p.inputMv, p.gainMilli,
    p.thresholdMv] (u32Le (crc32 (dataHead kind sequence p)) ++
      List.replicate (size - ((dataHead kind sequence p).length + 4)) 0xFF)
  have hcommit := readU32Le_flatMap [commitMagic, kind, sequence, crc32 (dataHead kind sequence p)]
    (u32Le (crc32 (commitHead kind sequence (crc32 (dataHead kind sequence p)))) ++
      List.replicate (size - ((commitHead kind sequence (crc32 (dataHead kind sequence p))).length
        + 4)) 0xFF)
  have hcrc : readU32Le (sealed (dataHead kind sequence p) size) 28 =
      crc32 (dataHead kind sequence p) := by
    have := sealed_crcMatches size (dataHead kind sequence p)
    have htake : (sealed (dataHead kind sequence p) size).take 28 = dataHead kind sequence p :=
      show List.take (dataHead kind sequence p).length _ = _ from List.take_left
    rwa [crcMatches, show (dataHead kind sequence p).length = 28 from rfl, htake] at this
  refine ⟨hcommit 0 (by simp), ?_, ?_, ?_, sealed_crcMatches _ _⟩
  · exact (hcommit 1 (by simp)).trans (hdata 1 (by simp)).symm
  · exact (hcommit 2 (by simp)).trans (hdata 2 (by simp)).symm
  · exact (hcommit 3 (by simp)).trans hcrc.symm

end encode

/-! ## The order of sequence numbers -/

/-- The sequence number of the next record: zero is skipped. -/
def nextSequence (sequence : UInt32) : UInt32 := if sequence + 1 = 0 then 1 else sequence + 1

theorem nextSequence_ne_zero (sequence : UInt32) : nextSequence sequence ≠ 0 := by
  unfold nextSequence
  split
  · decide
  · next h => exact h

theorem nextSequence_toNat (sequence : UInt32) :
    (nextSequence sequence).toNat =
      if sequence.toNat + 1 = 2 ^ 32 then 1 else sequence.toNat + 1 := by
  have hlt := sequence.toNat_lt
  have hadd : (sequence + 1).toNat = (sequence.toNat + 1) % 2 ^ 32 := UInt32.toNat_add _ _
  unfold nextSequence
  by_cases hwrap : sequence.toNat + 1 = 2 ^ 32
  · have hzero : sequence + 1 = 0 := UInt32.toNat_inj.mp (by rw [hadd, hwrap]; rfl)
    rw [if_pos hzero, if_pos hwrap]
    rfl
  · have hne : sequence + 1 ≠ 0 := fun hzero => by
      rw [hzero, UInt32.toNat_zero] at hadd
      omega
    rw [if_neg hne, if_neg hwrap, hadd]
    omega

/-- **The next number is newer, also when the numbers wrap**, and the one before is not. -/
theorem newer_nextSequence {sequence : UInt32} (h : sequence ≠ 0) :
    newer (nextSequence sequence) sequence ∧ ¬ newer sequence (nextSequence sequence) := by
  have hlt := sequence.toNat_lt
  have hnext := nextSequence_toNat sequence
  have hpos : 0 < sequence.toNat := Nat.pos_of_ne_zero fun h' => h (UInt32.toNat_inj.mp h')
  have hforward : (nextSequence sequence - sequence).toNat =
      (2 ^ 32 - sequence.toNat + (nextSequence sequence).toNat) % 2 ^ 32 := UInt32.toNat_sub _ _
  have hback : (sequence - nextSequence sequence).toNat =
      (2 ^ 32 - (nextSequence sequence).toNat + sequence.toNat) % 2 ^ 32 := UInt32.toNat_sub _ _
  have hhalf : (0x80000000 : UInt32).toNat = 2 ^ 31 := rfl
  constructor
  · refine ⟨nextSequence_ne_zero sequence, Or.inr ⟨fun hzero => ?_, ?_⟩⟩
    · rw [hzero, UInt32.toNat_zero] at hforward
      split at hnext <;> omega
    · rw [UInt32.lt_iff_toNat_lt, hhalf]
      split at hnext <;> omega
  · rintro ⟨-, hzero | ⟨-, hnear⟩⟩
    · exact nextSequence_ne_zero sequence hzero
    · rw [UInt32.lt_iff_toNat_lt, hhalf] at hnear
      split at hnext <;> omega

end Atoman.DemoStorage
