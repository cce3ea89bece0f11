import Atoman.Bootloader.Core

/-!
# The codec of the metadata, in both directions

The encoder gets a record whose enumerations may have any value; the decoder gets any bytes. What
the one accepts the other reproduces, and a record that is cut short and goes on with erased bytes
is never accepted.
-/

namespace Atoman.Bootloader
open Lib

/-- `bootloader_metadata_t`, with the values of its enumerations -/
structure RawMetadata where
  state : ℕ
  mode : ℕ
  moduleId : UInt8
  retryCount : UInt8
  sequence : UInt32
  version : UInt32
  fileSize : UInt32
  expectedCrc : UInt16
  receivedLength : UInt32
  runningCrc : UInt16
  copyOffset : UInt32
  errorCode : UInt16
  deriving DecidableEq, Repr

/-- The bytes in front of the CRC -/
def RawMetadata.body (p_metadata : RawMetadata) : List UInt8 :=
  u32Le metadataMagic ++ u16Le metadataFormatVersion ++
  [p_metadata.state.toUInt8, p_metadata.mode.toUInt8, p_metadata.moduleId,
    p_metadata.retryCount] ++
  u32Le p_metadata.sequence ++ u32Le p_metadata.version ++ u32Le p_metadata.fileSize ++
  u16Le p_metadata.expectedCrc ++ u32Le p_metadata.receivedLength ++
  u16Le p_metadata.runningCrc ++ u32Le p_metadata.copyOffset ++ u16Le p_metadata.errorCode

/-- `bootloader_metadata_encode` -/
def bootloaderMetadataEncode (p_metadata : RawMetadata) (encoded_capacity : ℕ) :
    Except Result (List UInt8) :=
  if encoded_capacity < metadataEncodedSize ∨ 6 < p_metadata.state ∨ 1 < p_metadata.mode then
    .error .invalidArgument
  else
    .ok (p_metadata.body ++ u16Le (metadataCrc16 p_metadata.body) ++ u32Le metadataCommitMarker)

/-- `bootloader_metadata_decode` -/
def bootloaderMetadataDecode (p_encoded : List UInt8) : Except Result RawMetadata :=
  if p_encoded.length < metadataEncodedSize then .error .invalidArgument
  else
    let state := (p_encoded.getD 6 0).toNat
    let mode := (p_encoded.getD 7 0).toNat
    if readU32Le p_encoded 0 ≠ metadataMagic
        ∨ readU16Le p_encoded 4 ≠ metadataFormatVersion
        ∨ 6 < state ∨ 1 < mode
        ∨ readU16Le p_encoded 36 ≠ metadataCrc16 (p_encoded.take 36)
        ∨ readU32Le p_encoded 38 ≠ metadataCommitMarker then .error .imageInvalid
    else .ok
      { state, mode
        moduleId := p_encoded.getD 8 0
        retryCount := p_encoded.getD 9 0
        sequence := readU32Le p_encoded 10
        version := readU32Le p_encoded 14
        fileSize := readU32Le p_encoded 18
        expectedCrc := readU16Le p_encoded 22
        receivedLength := readU32Le p_encoded 24
        runningCrc := readU16Le p_encoded 28
        copyOffset := readU32Le p_encoded 30
        errorCode := readU16Le p_encoded 34 }

/-- A record of the core, as the codec has it -/
def Metadata.raw (m : Metadata) : RawMetadata where
  state := m.state.toByte.toNat
  mode := m.mode.toByte.toNat
  moduleId := m.moduleId
  retryCount := m.retryCount
  sequence := m.sequence
  version := m.version
  fileSize := m.fileSize
  expectedCrc := m.expectedCrc
  receivedLength := m.receivedLength
  runningCrc := m.runningCrc
  copyOffset := m.copyOffset
  errorCode := m.errorCode

theorem MetadataState.exists_toByte {n : ℕ} (h : n ≤ 6) :
    ∃ state : MetadataState, state.toByte.toNat = n := by
  interval_cases n
  exacts [⟨.empty, rfl⟩, ⟨.downloadDirect, rfl⟩, ⟨.downloadStaged, rfl⟩, ⟨.installPending, rfl⟩,
    ⟨.copying, rfl⟩, ⟨.valid, rfl⟩, ⟨.failed, rfl⟩]

theorem UpgradeMode.exists_toByte {n : ℕ} (h : n ≤ 1) :
    ∃ mode : UpgradeMode, mode.toByte.toNat = n := by
  interval_cases n
  exacts [⟨.direct, rfl⟩, ⟨.staged, rfl⟩]

theorem MetadataState.toByte_le (state : MetadataState) : state.toByte.toNat ≤ 6 := by
  cases state <;> decide

theorem UpgradeMode.toByte_le (mode : UpgradeMode) : mode.toByte.toNat ≤ 1 := by
  cases mode <;> decide

theorem MetadataState.toByte_of_ofByte {b : UInt8} {state : MetadataState}
    (h : ofByte b = some state) : state.toByte = b := by
  unfold ofByte at h
  split_ifs at h <;> cases h <;> symm <;> assumption

theorem UpgradeMode.toByte_of_ofByte {b : UInt8} {mode : UpgradeMode}
    (h : ofByte b = some mode) : mode.toByte = b := by
  unfold ofByte at h
  split_ifs at h <;> cases h <;> symm <;> assumption

theorem MetadataState.lt_of_ofByte {b : UInt8} (h : ofByte b = none) : 6 < b.toNat := by
  by_contra hle
  obtain ⟨state, hstate⟩ := exists_toByte (not_lt.1 hle)
  rw [← UInt8.toNat_inj.1 hstate, ofByte_toByte] at h
  cases h

theorem UpgradeMode.lt_of_ofByte {b : UInt8} (h : ofByte b = none) : 1 < b.toNat := by
  by_contra hle
  obtain ⟨mode, hmode⟩ := exists_toByte (not_lt.1 hle)
  rw [← UInt8.toNat_inj.1 hmode, ofByte_toByte] at h
  cases h

theorem Metadata.body_raw (m : Metadata) : m.raw.body = metadataBody m := by
  simp [RawMetadata.body, Metadata.raw, metadataBody]

/-- The records that are encoded are the records of the core. -/
theorem encode_ok_iff {p_metadata : RawMetadata} {encoded_capacity : ℕ} {p : List UInt8} :
    bootloaderMetadataEncode p_metadata encoded_capacity = .ok p ↔
      metadataEncodedSize ≤ encoded_capacity ∧
        ∃ m : Metadata, p_metadata = m.raw ∧ p = metadataEncode m := by
  unfold bootloaderMetadataEncode
  constructor
  · intro h
    split_ifs at h with hbad
    rw [Except.ok.injEq] at h
    simp only [not_or, not_lt] at hbad
    obtain ⟨hcapacity, hstate, hmode⟩ := hbad
    obtain ⟨state', mode', moduleId, retryCount, sequence, version, fileSize, expectedCrc,
      receivedLength, runningCrc, copyOffset, errorCode⟩ := p_metadata
    obtain ⟨state, rfl⟩ := MetadataState.exists_toByte hstate
    obtain ⟨mode, rfl⟩ := UpgradeMode.exists_toByte hmode
    refine ⟨hcapacity, ⟨state, mode, moduleId, retryCount, sequence, version, fileSize, expectedCrc,
      receivedLength, runningCrc, copyOffset, errorCode⟩, rfl, ?_⟩
    rw [← h, metadataEncode, ← Metadata.body_raw]
    rfl
  · rintro ⟨hcapacity, m, rfl, rfl⟩
    have hstate : m.raw.state ≤ 6 := m.state.toByte_le
    have hmode : m.raw.mode ≤ 1 := m.mode.toByte_le
    rw [if_neg (by omega), Metadata.body_raw]
    rfl

/-- What is decoded is what the core decodes. -/
theorem decode_eq {p : List UInt8} (hlen : p.length = metadataEncodedSize) :
    bootloaderMetadataDecode p =
      match metadataDecode p with
      | none => .error .imageInvalid
      | some m => .ok m.raw := by
  unfold bootloaderMetadataDecode metadataDecode
  rw [if_neg (by omega)]
  cases hstate : MetadataState.ofByte (p.getD 6 0) with
  | none =>
    have := MetadataState.lt_of_ofByte hstate
    rw [if_pos (by simp only [this, true_or, or_true])]
  | some state =>
    have hstate' := state.toByte_le
    rw [MetadataState.toByte_of_ofByte hstate] at hstate'
    cases hmode : UpgradeMode.ofByte (p.getD 7 0) with
    | none =>
      have := UpgradeMode.lt_of_ofByte hmode
      rw [if_pos (by simp only [this, true_or, or_true])]
    | some mode =>
      have hmode' := mode.toByte_le
      rw [UpgradeMode.toByte_of_ofByte hmode] at hmode'
      simp only [not_lt.2 hstate', not_lt.2 hmode', false_or]
      split
      · rfl
      · dsimp only [Metadata.raw]
        rw [MetadataState.toByte_of_ofByte hstate, UpgradeMode.toByte_of_ofByte hmode]

/-- The bytes that the decoder accepts are those that the encoder makes of the record. -/
theorem metadataEncode_of_decode {p : List UInt8} (hlen : p.length = metadataEncodedSize)
    {m : Metadata} (h : metadataDecode p = some m) : metadataEncode m = p := by
  have hcat (i a b : ℕ) : (p.drop i).take a ++ (p.drop (i + a)).take b =
      (p.drop i).take (a + b) := by
    rw [List.take_add, List.drop_drop]
  have hlen : p.length = 42 := hlen
  have hbytes : [p.getD 6 0, p.getD 7 0, p.getD 8 0, p.getD 9 0] = (p.drop 6).take 4 := by
    rw [← u32Le_readU32Le (by omega), readU32Le, u32Le_u32OfBytes]
  unfold metadataDecode at h
  split at h
  · rename_i state mode hstate hmode
    split_ifs at h with hbad
    simp only [not_or, not_not] at hbad
    obtain ⟨hmagic, hversion, hcrc, hmarker⟩ := hbad
    rw [Option.some.injEq] at h
    have hbody : metadataBody m = p.take 36 := by
      rw [← h]
      unfold metadataBody
      dsimp only
      rw [← hmagic, ← hversion, MetadataState.toByte_of_ofByte hstate,
        UpgradeMode.toByte_of_ofByte hmode, hbytes]
      repeat rw [u32Le_readU32Le (by omega)]
      repeat rw [u16Le_readU16Le (by omega)]
      repeat rw [hcat]
      rfl
    rw [metadataEncode, hbody, ← hcrc, ← hmarker, u16Le_readU16Le (by omega),
      u32Le_readU32Le (by omega), ← p.drop_zero, List.drop_drop, List.drop_drop]
    repeat rw [hcat]
    exact List.take_of_length_le (by simp [hlen])
  · cases h

/-- A record that is cut short and goes on with erased bytes -/
theorem metadataDecode_torn (m : Metadata) {n : ℕ} (hn : n < metadataEncodedSize) :
    metadataDecode
      ((metadataEncode m).take n ++ List.replicate (metadataEncodedSize - n) 0xFF) = none := by
  apply metadataDecode_erased_last
  have hn42 : n < 42 := hn
  have hlen : ((metadataEncode m).take n).length = n := by
    rw [List.length_take, length_metadataEncode]
    exact Nat.min_eq_left hn.le
  have hin : 41 < ((metadataEncode m).take n ++
      List.replicate (metadataEncodedSize - n) (0xFF : UInt8)).length := by
    rw [List.length_append, hlen, List.length_replicate]
    simp only [metadataEncodedSize]
    omega
  rw [List.getD_eq_getElem?_getD, List.getElem?_eq_getElem hin, Option.getD_some,
    List.getElem_append_right (by omega), List.getElem_replicate]

/-- What is encoded is decoded, what is decoded is encoded, and a prefix of a record in front of
erased bytes is not decoded; it is never the record, whose last byte is not an erased one. -/
theorem metadata_codec :
    (∀ p_metadata encoded_capacity p,
      bootloaderMetadataEncode p_metadata encoded_capacity = .ok p →
        bootloaderMetadataDecode p = .ok p_metadata ∧
        ∀ n < metadataEncodedSize,
          bootloaderMetadataDecode
            (p.take n ++ List.replicate (metadataEncodedSize - n) 0xFF) = .error .imageInvalid ∧
          p.drop n ≠ List.replicate (metadataEncodedSize - n) 0xFF) ∧
    ∀ p p_metadata, p.length = metadataEncodedSize → bootloaderMetadataDecode p = .ok p_metadata →
      bootloaderMetadataEncode p_metadata metadataEncodedSize = .ok p := by
  refine ⟨fun p_metadata encoded_capacity p h => ?_, fun p p_metadata hlen h => ?_⟩
  · obtain ⟨-, m, rfl, rfl⟩ := encode_ok_iff.1 h
    refine ⟨by rw [decode_eq (length_metadataEncode m), metadataDecode_encode], fun n hn => ?_⟩
    have hlength : ((metadataEncode m).take n ++
        List.replicate (metadataEncodedSize - n) (0xFF : UInt8)).length = metadataEncodedSize := by
      rw [List.length_append, List.length_take, length_metadataEncode, List.length_replicate,
        Nat.min_eq_left (show n ≤ 42 from hn.le)]
      exact Nat.add_sub_cancel' hn.le
    refine ⟨by rw [decode_eq hlength, metadataDecode_torn m hn], fun herased => ?_⟩
    have htorn := metadataDecode_torn m hn
    rw [← herased, List.take_append_drop, metadataDecode_encode] at htorn
    cases htorn
  · rw [decode_eq hlen] at h
    split at h
    · cases h
    · rename_i m hm
      rw [Except.ok.injEq] at h
      exact encode_ok_iff.2 ⟨le_rfl, m, h.symm, (metadataEncode_of_decode hlen hm).symm⟩

def demoRecord : Metadata :=
  ⟨.copying, .staged, 3, 2, 0xFFFFFFFF, 0x01000000, 65536, 0xBEEF, 65536, 0xBEEF, 1024, 0⟩

/-- The record of an installation, and what is left of it when the commit marker is missing. -/
theorem metadata_codec_copying :
    bootloaderMetadataDecode (metadataEncode demoRecord) = .ok demoRecord.raw ∧
      bootloaderMetadataDecode
        ((metadataEncode demoRecord).take 38 ++ List.replicate 4 0xFF) = .error .imageInvalid := by
  have h := metadata_codec.1 demoRecord.raw 42 _ (encode_ok_iff.2 ⟨le_rfl, demoRecord, rfl, rfl⟩)
  exact ⟨h.1, (h.2 38 (by decide)).1⟩

end Atoman.Bootloader
