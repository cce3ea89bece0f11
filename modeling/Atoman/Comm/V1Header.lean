import Atoman.Comm.V1Parser
import Mathlib.Algebra.Group.Nat.Defs

/-!
# The packed header

The sender packs ten fields into one word with shifts and ors; the receiver puts
the word together from its four bytes and takes the fields out with shifts and
masks. Both are followed through the value of the word as a sum.
-/

namespace Atoman.Comm.V1

/-- Below a shifted word, an or is a sum. -/
theorem or_shift_toNat {a b k : UInt32} (hk : k.toNat < 32) (ha : a.toNat < 2 ^ k.toNat)
    (hb : b.toNat * 2 ^ k.toNat < 2 ^ 32) :
    (a ||| (b <<< k)).toNat = a.toNat + b.toNat * 2 ^ k.toNat := by
  have hshift : (b <<< k).toNat = b.toNat <<< k.toNat := by
    rw [UInt32.toNat_shiftLeft, Nat.mod_eq_of_lt hk, Nat.shiftLeft_eq, Nat.mod_eq_of_lt hb]
  rw [UInt32.toNat_or, hshift, Nat.or_comm, ← Nat.shiftLeft_add_eq_or_of_lt ha, Nat.shiftLeft_eq,
    Nat.add_comm]

/-- Some bits of a word. -/
theorem field_toNat (msg k : UInt32) (w : ℕ) {mask : UInt32} (hk : k.toNat < 32)
    (hmask : mask.toNat = 2 ^ w - 1) :
    (field msg k mask).toNat = msg.toNat / 2 ^ k.toNat % 2 ^ w := by
  rw [field, UInt32.toNat_and, hmask, Nat.and_two_pow_sub_one_eq_mod, UInt32.toNat_shiftRight,
    Nat.mod_eq_of_lt hk, Nat.shiftRight_eq_div_pow]

/-- A field whose bits are those of `x`. -/
theorem field_eq {msg k mask : UInt32} (w : ℕ) {x : UInt8} (hk : k.toNat < 32)
    (hmask : mask.toNat = 2 ^ w - 1) (hx : msg.toNat / 2 ^ k.toNat % 2 ^ w = x.toNat) :
    (field msg k mask).toUInt8 = x := by
  apply UInt8.toNat_inj.mp
  rw [UInt32.toNat_toUInt8, field_toNat msg k w hk hmask, hx]
  exact Nat.mod_eq_of_lt x.toNat_lt

/-- A field in two parts whose bits are those of `x`. -/
theorem split_field_eq {msg k l shift mask mask' : UInt32} (v w : ℕ) {x : UInt8}
    (hk : k.toNat < 32) (hl : l.toNat < 32) (hmask : mask.toNat = 2 ^ v - 1)
    (hmask' : mask'.toNat = 2 ^ w - 1) (hshift : shift.toNat = v) (hvw : v + w ≤ 8)
    (hx : msg.toNat / 2 ^ k.toNat % 2 ^ v + msg.toNat / 2 ^ l.toNat % 2 ^ w * 2 ^ v = x.toNat) :
    (field msg k mask ||| (field msg l mask' <<< shift)).toUInt8 = x := by
  have hlo := field_toNat msg k v hk hmask
  have hhi := field_toNat msg l w hl hmask'
  have hroom : (field msg l mask').toNat * 2 ^ shift.toNat < 2 ^ 32 := by
    calc (field msg l mask').toNat * 2 ^ shift.toNat
        < 2 ^ w * 2 ^ v := by
          rw [hshift, hhi]
          exact Nat.mul_lt_mul_of_pos_right (Nat.mod_lt _ (Nat.two_pow_pos w)) (Nat.two_pow_pos v)
      _ = 2 ^ (w + v) := (Nat.pow_add 2 w v).symm
      _ ≤ 2 ^ 32 := Nat.pow_le_pow_right (by decide) (by omega)
  apply UInt8.toNat_inj.mp
  rw [UInt32.toNat_toUInt8, or_shift_toNat (by omega)
    (by rw [hlo, hshift]; exact Nat.mod_lt _ (Nat.two_pow_pos v)) hroom, hlo, hhi, hshift, hx]
  exact Nat.mod_eq_of_lt x.toNat_lt

/-- The field values of a header fit their fields. -/
structure HeaderFits (pack : Pack) (codec : UInt8) (cmd ack : UInt32) : Prop where
  seq : pack.seq.toNat < 8
  dst : pack.dst.toNat < 16
  dDst : pack.dDst.toNat < 8
  src : pack.src.toNat < 16
  dSrc : pack.dSrc.toNat < 8
  cmdSet : pack.cmdSet.toNat < 16
  cmdWord : pack.cmdWord.toNat < 64
  codec : codec.toNat < 8
  cmd : cmd.toNat < 2
  ack : ack.toNat < 2

/-- What the range checks of the sender say. -/
theorem headerFits_of_sendAccepts {pack : Pack} (h : sendAccepts pack) (codec : UInt8)
    (cmd ack : UInt32) (hcodec : codec.toNat < 8) (hcmd : cmd.toNat < 2) (hack : ack.toNat < 2) :
    HeaderFits pack codec cmd ack := by
  simp only [sendAccepts, Bool.and_eq_true, decide_eq_true_eq, UInt8.le_iff_toNat_le] at h
  obtain ⟨⟨⟨⟨⟨⟨⟨-, hseq⟩, hsrc⟩, hdst⟩, hdSrc⟩, hdDst⟩, hcmdSet⟩, hcmdWord⟩ := h
  change pack.seq.toNat ≤ 7 at hseq
  change pack.src.toNat ≤ 15 at hsrc
  change pack.dst.toNat ≤ 15 at hdst
  change pack.dSrc.toNat ≤ 7 at hdSrc
  change pack.dDst.toNat ≤ 7 at hdDst
  change pack.cmdSet.toNat ≤ 15 at hcmdSet
  change pack.cmdWord.toNat ≤ 63 at hcmdWord
  exact ⟨by omega, by omega, by omega, by omega, by omega, by omega, by omega, hcodec, hcmd, hack⟩

/-- The value of a header word. -/
def headerValue (pack : Pack) (codec : UInt8) (cmd ack : UInt32) : ℕ :=
  pack.seq.toNat + pack.dst.toNat * 2 ^ 3 + pack.dDst.toNat * 2 ^ 7 + pack.src.toNat * 2 ^ 10 +
    pack.dSrc.toNat * 2 ^ 14 + pack.cmdSet.toNat * 2 ^ 17 + pack.cmdWord.toNat * 2 ^ 21 +
    codec.toNat * 2 ^ 27 + cmd.toNat * 2 ^ 30 + ack.toNat * 2 ^ 31

/-- The header word is the sum of its shifted fields. -/
theorem msgWord_toNat {pack : Pack} {codec : UInt8} {cmd ack : UInt32}
    (h : HeaderFits pack codec cmd ack) :
    (msgWord pack codec cmd ack).toNat = headerValue pack codec cmd ack := by
  obtain ⟨hseq, hdst, hdDst, hsrc, hdSrc, hcmdSet, hcmdWord, hcodec, hcmd, hack⟩ := h
  have h₀ := UInt8.toNat_toUInt32 pack.seq
  have h₁ := or_shift_toNat (a := pack.seq.toUInt32) (b := pack.dst.toUInt32) (k := 3) (by decide)
    (by rw [h₀]; exact hseq) (by simp; omega)
  have h₂ := or_shift_toNat (b := pack.dDst.toUInt32) (k := 7) (by decide)
    (by rw [h₁, h₀]; simp; omega) (by simp; omega)
  have h₃ := or_shift_toNat (b := pack.src.toUInt32) (k := 10) (by decide)
    (by rw [h₂, h₁, h₀]; simp; omega) (by simp; omega)
  have h₄ := or_shift_toNat (b := pack.dSrc.toUInt32) (k := 14) (by decide)
    (by rw [h₃, h₂, h₁, h₀]; simp; omega) (by simp; omega)
  have h₅ := or_shift_toNat (b := pack.cmdSet.toUInt32) (k := 17) (by decide)
    (by rw [h₄, h₃, h₂, h₁, h₀]; simp; omega) (by simp; omega)
  have h₆ := or_shift_toNat (b := pack.cmdWord.toUInt32) (k := 21) (by decide)
    (by rw [h₅, h₄, h₃, h₂, h₁, h₀]; simp; omega) (by simp; omega)
  have h₇ := or_shift_toNat (b := codec.toUInt32) (k := 27) (by decide)
    (by rw [h₆, h₅, h₄, h₃, h₂, h₁, h₀]; simp; omega) (by simp; omega)
  have h₈ := or_shift_toNat (b := cmd) (k := 30) (by decide)
    (by rw [h₇, h₆, h₅, h₄, h₃, h₂, h₁, h₀]; simp; omega) (by simp; omega)
  have h₉ := or_shift_toNat (b := ack) (k := 31) (by decide)
    (by rw [h₈, h₇, h₆, h₅, h₄, h₃, h₂, h₁, h₀]; simp; omega) (by simp; omega)
  rw [msgWord, h₉, h₈, h₇, h₆, h₅, h₄, h₃, h₂, h₁, h₀]
  simp [headerValue]

/-! ## The receiver's side -/

/-- A byte of the word. -/
def msgByte (msg k : UInt32) : UInt8 := (field msg k 0xFF).toUInt8

theorem msgBytes_eq (msg : UInt32) :
    msgBytes msg = [msgByte msg 0, msgByte msg 8, msgByte msg 16, msgByte msg 24] := by
  simp [msgBytes, msgByte, field]

theorem msgByte_toNat (msg k : UInt32) (hk : k.toNat < 32) :
    (msgByte msg k).toNat = msg.toNat / 2 ^ k.toNat % 256 := by
  rw [msgByte, UInt32.toNat_toUInt8, field_toNat msg k 8 hk rfl]
  omega

/-- The word the receiver puts together from four bytes. -/
def joinBytes (m₀ m₁ m₂ m₃ : UInt8) : UInt32 :=
  m₀.toUInt32 ||| (m₁.toUInt32 <<< 8) ||| (m₂.toUInt32 <<< 16) ||| (m₃.toUInt32 <<< 24)

theorem joinBytes_toNat (m₀ m₁ m₂ m₃ : UInt8) :
    (joinBytes m₀ m₁ m₂ m₃).toNat =
      m₀.toNat + m₁.toNat * 2 ^ 8 + m₂.toNat * 2 ^ 16 + m₃.toNat * 2 ^ 24 := by
  have b₀ := m₀.toNat_lt
  have b₁ := m₁.toNat_lt
  have b₂ := m₂.toNat_lt
  have b₃ := m₃.toNat_lt
  have h₀ := UInt8.toNat_toUInt32 m₀
  have h₁ := or_shift_toNat (a := m₀.toUInt32) (b := m₁.toUInt32) (k := 8) (by decide)
    (by rw [h₀]; exact b₀) (by simp; omega)
  have h₂ := or_shift_toNat (b := m₂.toUInt32) (k := 16) (by decide)
    (by rw [h₁, h₀]; simp; omega) (by simp; omega)
  have h₃ := or_shift_toNat (b := m₃.toUInt32) (k := 24) (by decide)
    (by rw [h₂, h₁, h₀]; simp; omega) (by simp; omega)
  rw [joinBytes, h₃, h₂, h₁, h₀]
  simp

/-- The receiver gets the word of the sender back. -/
theorem joinBytes_msgBytes (msg : UInt32) :
    joinBytes (msgByte msg 0) (msgByte msg 8) (msgByte msg 16) (msgByte msg 24) = msg := by
  apply UInt32.toNat_inj.mp
  have hmsg := msg.toNat_lt
  rw [joinBytes_toNat, msgByte_toNat msg 0 (by decide), msgByte_toNat msg 8 (by decide),
    msgByte_toNat msg 16 (by decide), msgByte_toNat msg 24 (by decide)]
  simp only [UInt32.reduceToNat]
  omega

/-- Bits of a header byte. -/
theorem byte_field_toNat (b k : UInt8) (w : ℕ) {mask : UInt8} (hk : k.toNat < 8)
    (hmask : mask.toNat = 2 ^ w - 1) :
    ((b >>> k) &&& mask).toNat = b.toNat / 2 ^ k.toNat % 2 ^ w := by
  rw [UInt8.toNat_and, hmask, Nat.and_two_pow_sub_one_eq_mod, UInt8.toNat_shiftRight,
    Nat.mod_eq_of_lt hk, Nat.shiftRight_eq_div_pow]

section fields
variable {pack : Pack} {codec : UInt8} {cmd ack : UInt32} (h : HeaderFits pack codec cmd ack)
include h

/-- The first header byte carries the sequence number and the destination. -/
theorem firstByte_fields :
    msgByte (msgWord pack codec cmd ack) 0 &&& seqMask = pack.seq ∧
      (msgByte (msgWord pack codec cmd ack) 0 >>> 3) &&& 0x0F = pack.dst := by
  have hval := msgWord_toNat h
  have hbyte := msgByte_toNat (msgWord pack codec cmd ack) 0 (by decide)
  obtain ⟨hseq, hdst, hdDst, hsrc, hdSrc, hcmdSet, hcmdWord, hcodec, hcmd, hack⟩ := h
  rw [hval, headerValue] at hbyte
  simp only [UInt32.reduceToNat] at hbyte
  constructor
  · apply UInt8.toNat_inj.mp
    rw [UInt8.toNat_and, show seqMask.toNat = 2 ^ 3 - 1 from rfl, Nat.and_two_pow_sub_one_eq_mod,
      hbyte]
    omega
  · apply UInt8.toNat_inj.mp
    rw [byte_field_toNat _ 3 4 (by decide) rfl, hbyte]
    simp only [UInt8.reduceToNat]
    omega

/-- The last header byte carries the codec and the command flag. -/
theorem lastByte_fields :
    ((msgByte (msgWord pack codec cmd ack) 24 >>> 6) &&& 0x01).toNat = cmd.toNat ∧
      (msgByte (msgWord pack codec cmd ack) 24 >>> 3) &&& 0x07 = codec := by
  have hval := msgWord_toNat h
  have hbyte := msgByte_toNat (msgWord pack codec cmd ack) 24 (by decide)
  obtain ⟨hseq, hdst, hdDst, hsrc, hdSrc, hcmdSet, hcmdWord, hcodec, hcmd, hack⟩ := h
  rw [hval, headerValue] at hbyte
  simp only [UInt32.reduceToNat] at hbyte
  constructor
  · rw [byte_field_toNat _ 6 1 (by decide) rfl, hbyte]
    simp only [UInt8.reduceToNat]
    omega
  · apply UInt8.toNat_inj.mp
    rw [byte_field_toNat _ 3 3 (by decide) rfl, hbyte]
    simp only [UInt8.reduceToNat]
    omega

/-- The codec of the header word. -/
theorem field_codec : (field (msgWord pack codec cmd ack) 27 0x07).toUInt8 = codec := by
  have hval := msgWord_toNat h
  obtain ⟨hseq, hdst, hdDst, hsrc, hdSrc, hcmdSet, hcmdWord, hcodec, hcmd, hack⟩ := h
  rw [headerValue] at hval
  exact field_eq 3 (by decide) rfl (by rw [hval]; simp only [UInt32.reduceToNat]; omega)

/-- **The receiver takes out what the sender packed.** -/
theorem extract_msgWord (p : Pack) :
    extract p (msgWord pack codec cmd ack) =
      { p with
        sop := sopByte, version := version, seq := pack.seq, dst := pack.dst, dDst := pack.dDst
        src := pack.src, dSrc := pack.dSrc, cmdSet := pack.cmdSet, cmdWord := pack.cmdWord
        isAck := ack.toUInt8 } := by
  have hval := msgWord_toNat h
  obtain ⟨hseq, hdst, hdDst, hsrc, hdSrc, hcmdSet, hcmdWord, hcodec, hcmd, hack⟩ := h
  rw [headerValue] at hval
  have h₁ : (msgWord pack codec cmd ack &&& 0x07).toUInt8 = pack.seq := by
    have hseq' : (field (msgWord pack codec cmd ack) 0 0x07).toUInt8 = pack.seq :=
      field_eq 3 (by decide) rfl (by rw [hval]; simp only [UInt32.reduceToNat]; omega)
    simpa [field] using hseq'
  have h₂ : (field (msgWord pack codec cmd ack) 3 0x0F).toUInt8 = pack.dst :=
    field_eq 4 (by decide) rfl (by rw [hval]; simp only [UInt32.reduceToNat]; omega)
  have h₃ : (field (msgWord pack codec cmd ack) 7 0x01 |||
      (field (msgWord pack codec cmd ack) 8 0x03 <<< 1)).toUInt8 = pack.dDst :=
    split_field_eq 1 2 (by decide) (by decide) rfl rfl rfl (by decide)
      (by rw [hval]; simp only [UInt32.reduceToNat]; omega)
  have h₄ : (field (msgWord pack codec cmd ack) 10 0x0F).toUInt8 = pack.src :=
    field_eq 4 (by decide) rfl (by rw [hval]; simp only [UInt32.reduceToNat]; omega)
  have h₅ : (field (msgWord pack codec cmd ack) 14 0x03 |||
      (field (msgWord pack codec cmd ack) 16 0x01 <<< 2)).toUInt8 = pack.dSrc :=
    split_field_eq 2 1 (by decide) (by decide) rfl rfl rfl (by decide)
      (by rw [hval]; simp only [UInt32.reduceToNat]; omega)
  have h₆ : (field (msgWord pack codec cmd ack) 17 0x0F).toUInt8 = pack.cmdSet :=
    field_eq 4 (by decide) rfl (by rw [hval]; simp only [UInt32.reduceToNat]; omega)
  have h₇ : (field (msgWord pack codec cmd ack) 21 0x07 |||
      (field (msgWord pack codec cmd ack) 24 0x07 <<< 3)).toUInt8 = pack.cmdWord :=
    split_field_eq 3 3 (by decide) (by decide) rfl rfl rfl (by decide)
      (by rw [hval]; simp only [UInt32.reduceToNat]; omega)
  have h₈ : (field (msgWord pack codec cmd ack) 31 0x01).toUInt8 = ack.toUInt8 := by
    refine field_eq 1 (by decide) rfl ?_
    rw [hval, UInt32.toNat_toUInt8]
    simp only [UInt32.reduceToNat]
    omega
  rw [extract, h₁, h₂, h₃, h₄, h₅, h₆, h₇, h₈]

end fields

end Atoman.Comm.V1
