import Atoman.Bch4.Correct
import Atoman.Nand.Session

/-!
# What is programmed is read back

A page comes back with some bits wrong. As long as no sector and its parity have more than four
of them, and the magic word and the CRC are right, `page_check` finds the bytes that were
programmed, whatever they are, and counts the bits that were wrong.
-/

namespace Atoman.Nand
open Lib Bch4 DemoStorage

/-! ## The page that is programmed -/

section blocks
variable {α β : Type*} {f : α → List β} {m : ℕ}

/-- An element of a list of blocks of equal length. -/
theorem getElem?_flatMap_of_length (hf : ∀ a, (f a).length = m) (hm : 0 < m) (l : List α) (k : ℕ) :
    (l.flatMap f)[k]? = l[k / m]?.bind fun a => (f a)[k % m]? := by
  induction l generalizing k with
  | nil => rfl
  | cons a l ih =>
    rw [List.flatMap_cons]
    rcases Nat.lt_or_ge k m with hk | hk
    · rw [List.getElem?_append_left (by rwa [hf]), Nat.div_eq_of_lt hk, Nat.mod_eq_of_lt hk]
      rfl
    · obtain ⟨j, rfl⟩ := Nat.exists_eq_add_of_le hk
      rw [List.getElem?_append_right (by rw [hf]; omega), hf, Nat.add_sub_cancel_left, ih,
        Nat.add_div_left _ hm, Nat.add_mod_left]
      rfl

end blocks

section programmed
variable (source : Vector UInt8 2048)

/-- The bytes of a sector of the source. -/
def sourceSector (i : ℕ) : Vector UInt8 512 := Vector.ofFn fun j => source[512 * i + j.val]!

/-- The parity in the OOB. -/
def parities : List UInt8 := (List.range 4).flatMap fun i => (parity (sourceSector source i)).toList

/-- Main area, unused bytes, magic word and CRC. -/
def front : List UInt8 :=
  source.toList ++ List.replicate 8 0xFF ++ u32Le 0x314C4146 ++ u32Le (crc32 source.toList)

theorem encodePage_eq :
    encodePage source = front source ++ parities source ++ List.replicate 84 0xFF := rfl

theorem length_front : (front source).length = 2064 := by
  simp [front]

theorem length_parities : (parities source).length = 28 := by
  simp [parities, List.range_succ]

theorem length_encodePage : (encodePage source).length = 2176 := by
  rw [encodePage_eq, List.length_append, List.length_append, length_front, length_parities,
    List.length_replicate]

/-- The page that is programmed. -/
def encoded : Page := ⟨(encodePage source).toArray, length_encodePage source⟩

theorem toList_encoded : (encoded source).toList = encodePage source := rfl

theorem getElem_encoded {k : ℕ} (hk : k < 2176) :
    (encodePage source)[k]? = some (encoded source)[k] := by
  rw [← toList_encoded]
  simp [hk]

/-- The main area is the source. -/
theorem getElem_main {k : ℕ} (hk : k < 2048) (hk' : k < 2176) :
    (encoded source)[k] = source[k] := by
  have hget := getElem_encoded source hk'
  have hsource : (encodePage source)[k]? = source.toList[k]? := by
    simp only [encodePage_eq, front, List.append_assoc]
    exact List.getElem?_append_left (by simpa using hk)
  rw [hsource] at hget
  simpa [hk] using hget.symm

/-- The parity of a sector. -/
theorem getElem_parity {i k : ℕ} (hi : i < 4) (hk : k < 7) (hk' : 2064 + 7 * i + k < 2176) :
    (encoded source)[2064 + 7 * i + k] = (parity (sourceSector source i))[k] := by
  have hget := getElem_encoded source hk'
  have hfront := length_front source
  have hparities := length_parities source
  have hblock : (parities source)[7 * i + k]? = (parity (sourceSector source i)).toList[k]? := by
    rw [parities, getElem?_flatMap_of_length (fun _ => Vector.length_toList) (by decide),
      show (7 * i + k) / 7 = i by omega, show (7 * i + k) % 7 = k by omega,
      List.getElem?_range hi]
    rfl
  rw [encodePage_eq, List.append_assoc, List.getElem?_append_right (by omega),
    List.getElem?_append_left (by omega), hfront,
    show 2064 + 7 * i + k - 2064 = 7 * i + k by omega, hblock] at hget
  simpa [hk] using hget.symm

/-- Every sector stands with its parity. -/
theorem sector_encoded {i : ℕ} (hi : i < 4) :
    (encoded source).sector i = ⟨sourceSector source i, parity (sourceSector source i)⟩ := by
  refine Page.sector_ext (fun k hk => ?_) fun k hk => ?_
  · have hin : 512 * i + k < 2176 := by omega
    rw [Page.data_sector hk hin, getElem_main source (by omega) hin]
    simp [sourceSector, show 512 * i + k < 2048 by omega]
  · have hin : 2064 + 7 * i + k < 2176 := by omega
    rw [Page.ecc_sector hk hin, getElem_parity source hi hk hin]

theorem magic_encoded : readU32Le (encoded source).toList 2056 = 0x314C4146 := by
  have hread := readU32Le_append (source.toList ++ List.replicate 8 0xFF)
    (u32Le (crc32 source.toList) ++ (parities source ++ List.replicate 84 0xFF)) 0x314C4146
  rw [show (source.toList ++ List.replicate 8 (0xFF : UInt8)).length = 2056 by simp] at hread
  simpa only [toList_encoded, encodePage_eq, front, List.append_assoc] using hread

theorem crc_encoded : readU32Le (encoded source).toList 2060 = crc32 source.toList := by
  have hread := readU32Le_append (source.toList ++ List.replicate 8 0xFF ++ u32Le 0x314C4146)
    (parities source ++ List.replicate 84 0xFF) (crc32 source.toList)
  rw [show (source.toList ++ List.replicate 8 (0xFF : UInt8) ++ u32Le 0x314C4146).length = 2060 by
    simp] at hread
  simpa only [toList_encoded, encodePage_eq, front, List.append_assoc] using hread

end programmed

/-! ## What is read -/

/-- A page, and what reading it brings: `errors i` are the wrong bits of the `i`-th sector and of
its parity. The magic word and the CRC are right, the rest of the OOB may be anything. -/
structure Damaged (p : Page) (errors : ℕ → List Position) (raw : Page) : Prop where
  sector : ∀ i < 4, raw.sector i = (errors i).foldl Sector.flip (p.sector i)
  nodup : ∀ i < 4, (errors i).Nodup
  few : ∀ i < 4, (errors i).length ≤ 4
  magic : readU32Le raw.toList 2056 = readU32Le p.toList 2056
  crc : readU32Le raw.toList 2060 = readU32Le p.toList 2060

/-- A blank page has no magic word. -/
theorem Page.magic_of_blank {raw : Page} (h : raw.blank = true) :
    readU32Le raw.toList 2056 = 0xFFFFFFFF := by
  have hbyte : ∀ k < 2176, raw.toList.getD k 0 = 0xFF := by
    intro k hk
    have hlength : k < raw.toList.length := by simpa using hk
    rw [List.getD_eq_getElem _ _ hlength]
    exact eq_of_beq (List.all_eq_true.mp h _ (List.getElem_mem hlength))
  unfold readU32Le
  rw [hbyte 2056 (by decide), hbyte (2056 + 1) (by decide), hbyte (2056 + 2) (by decide),
    hbyte (2056 + 3) (by decide)]
  rfl

/-- The magic word is in no sector. -/
theorem Page.magic_setSector {p : Page} {i : ℕ} (σ : Sector) (hi : i < 4) :
    readU32Le (p.setSector i σ).toList 2056 = readU32Le p.toList 2056 := by
  have hkeep : ∀ k, 2056 ≤ k → k < 2060 →
      (p.setSector i σ).toList.getD k 0 = p.toList.getD k 0 := by
    intro k hk hk'
    have hlt : k < 2176 := by omega
    have h := getElem_setSector (p := p) (i := i) σ hlt
    rw [if_neg (by omega), if_neg (by omega)] at h
    simp [hlt, h]
  unfold readU32Le
  rw [hkeep 2056 (by decide) (by decide), hkeep (2056 + 1) (by decide) (by decide),
    hkeep (2056 + 2) (by decide) (by decide), hkeep (2056 + 3) (by decide) (by decide)]

/-- Sectors that can be corrected are corrected, and their wrong bits are counted. -/
theorem Page.exists_correctSectors {p : Page} {count : ℕ → ℕ} {i left : ℕ} (bits : UInt32)
    (hcount : ∀ j, i ≤ j → j < i + left →
      (correctSector (p.sector j)).1 = (count j : ℤ) ∧ count j ≤ 4) (hi : i + left ≤ 4) :
    ∃ q bits', p.correctSectors bits i left = (some q, bits') ∧
      (bits.toNat + ((List.range' i left).map count).sum < 2 ^ 32 →
        bits'.toNat = bits.toNat + ((List.range' i left).map count).sum) := by
  induction left generalizing p bits i with
  | zero => exact ⟨p, bits, rfl, fun _ => by simp⟩
  | succ left ih =>
    obtain ⟨hfirst, hfew⟩ := hcount i (Nat.le_refl i) (by omega)
    have hrest : ∀ j, i + 1 ≤ j → j < i + 1 + left →
        (correctSector ((p.setSector i (correctSector (p.sector i)).2).sector j)).1 =
          (count j : ℤ) ∧ count j ≤ 4 := by
      intro j hj hj'
      rw [sector_setSector_of_ne _ (by omega) (by omega) (by omega)]
      exact hcount j (by omega) (by omega)
    have hword : (UInt32.ofInt (count i)).toNat = count i := by
      rw [UInt32.ofInt, UInt32.toNat_ofNat']
      omega
    rw [correctSectors]
    dsimp only
    rw [hfirst, if_neg (by omega)]
    obtain ⟨q, bits', hq, hsum⟩ := ih _ hrest (by omega)
    refine ⟨q, bits', hq, fun hlt => ?_⟩
    rw [List.range'_succ, List.map_cons, List.sum_cons] at hlt ⊢
    have hmost : bits ≤ 0xFFFFFFFF := UInt32.le_iff_toNat_le.mpr (Nat.le_of_lt_succ bits.toNat_lt)
    have hmax : (0xFFFFFFFF - bits).toNat = 2 ^ 32 - 1 - bits.toNat := by
      rw [UInt32.toNat_sub_of_le _ _ hmost]
      rfl
    have hle : UInt32.ofInt (count i) ≤ 0xFFFFFFFF - bits := by
      rw [UInt32.le_iff_toNat_le, hword, hmax]
      omega
    rw [if_pos hle] at hsum
    have hadd : (bits + UInt32.ofInt (count i)).toNat = bits.toNat + count i := by
      rw [UInt32.toNat_add, hword, Nat.mod_eq_of_lt (by omega)]
    rw [hadd] at hsum
    rw [hsum (by omega)]
    omega

section restored
variable {source : Vector UInt8 2048} {errors : ℕ → List Position} {raw page : Page}

/-- Every sector is corrected to what it was. -/
theorem Damaged.correctSector_eq (h : Damaged (encoded source) errors raw) {i : ℕ} (hi : i < 4) :
    correctSector (raw.sector i) = (((errors i).length : ℤ), (encoded source).sector i) := by
  have hbits : ∀ b ∈ (errors i).map Position.bit, b < bch4Bits := by
    intro b hb
    obtain ⟨position, -, rfl⟩ := List.mem_map.mp hb
    exact position.bit_lt
  have hflip : raw.sector i = ((errors i).map Position.bit).foldl Sector.invert
      ⟨sourceSector source i, parity (sourceSector source i)⟩ := by
    rw [h.sector i hi, sector_encoded source hi, List.foldl_map]
    exact List.foldl_ext _ _ _ fun σ position _ => σ.flip_eq position
  rw [hflip, correctSector_corrupted _ ((h.nodup i hi).map Position.bit_injective) hbits
    (by simpa using h.few i hi), List.length_map, sector_encoded source hi]

/-- The main area is made of the sectors. -/
theorem main_of_sectors (h : ∀ i < 4, page.sector i = (encoded source).sector i) :
    page.main = source.toList := by
  refine List.ext_getElem (by simp) fun k hk _ => ?_
  have hk : k < 2048 := by simpa using hk
  have hk' : k < 2176 := by omega
  have hdata := congrArg (fun σ : Sector => σ.data[k % 512]) (h (k / 512) (by omega))
  rw [Page.data_sector (by omega) (by omega), Page.data_sector (by omega) (by omega)] at hdata
  have hdata' : page[k] = (encoded source)[k] := by
    simpa only [Nat.div_add_mod] using hdata
  rw [getElem_main source hk hk'] at hdata'
  simpa [Page.main, hk'] using hdata'

theorem Damaged.not_blank (h : Damaged (encoded source) errors raw) : raw.blank = false := by
  by_contra hblank
  have hmagic := Page.magic_of_blank ((Bool.not_eq_false _).mp hblank)
  rw [h.magic, magic_encoded] at hmagic
  exact absurd hmagic (by decide)

/-- What passes is the source. -/
theorem Damaged.main_of_passes (h : Damaged (encoded source) errors raw) (hpass : Passes raw page) :
    page.main = source.toList := by
  cases hpass with
  | blank hblank => exact absurd hblank (by simp [h.not_blank])
  | corrected _ hsectors _ =>
    refine main_of_sectors fun i hi => ?_
    rw [(hsectors i hi).2, h.correctSector_eq hi]

/-- The page passes, and its wrong bits are counted. -/
theorem Damaged.exists_check (h : Damaged (encoded source) errors raw) (bits : UInt32) :
    ∃ page bits', raw.check bits = (some page, bits') ∧
      (bits.toNat + ((List.range 4).map fun i => (errors i).length).sum < 2 ^ 32 →
        bits'.toNat = bits.toNat + ((List.range 4).map fun i => (errors i).length).sum) := by
  have hcount : ∀ j, 0 ≤ j → j < 0 + 4 →
      (correctSector (raw.sector j)).1 = ((errors j).length : ℤ) ∧ (errors j).length ≤ 4 :=
    fun j _ hj => ⟨by rw [h.correctSector_eq (by omega)], h.few j (by omega)⟩
  obtain ⟨page, bits', hcorrect, hbits⟩ :=
    @Page.exists_correctSectors raw (fun i => (errors i).length) 0 4 bits hcount (by decide)
  obtain ⟨hsectors, -, hcrc⟩ := Page.correctSectors_spec hcorrect (by decide)
  have hmain : page.main = source.toList := by
    refine main_of_sectors fun i hi => ?_
    rw [(hsectors i (by omega) (by omega)).2, h.correctSector_eq hi]
  refine ⟨page, bits', ?_, by rwa [List.range_eq_range']⟩
  unfold Page.check
  rw [h.not_blank, h.magic, magic_encoded, hcorrect]
  simp [hmain, hcrc, h.crc, crc_encoded]

/-- **A page is read back.** Whatever was programmed, and whichever bits are read wrong, up to four
in each sector and its parity: `page_check` passes, the main area is what was programmed, and the
wrong bits are counted as long as the counter does not run over. -/
theorem check_restores (h : Damaged (encoded source) errors raw) (bits : UInt32) :
    ∃ page bits', raw.check bits = (some page, bits') ∧ page.main = source.toList ∧
      (bits.toNat + ((List.range 4).map fun i => (errors i).length).sum < 2 ^ 32 →
        bits'.toNat = bits.toNat + ((List.range 4).map fun i => (errors i).length).sum) := by
  obtain ⟨page, bits', hcheck, hbits⟩ := h.exists_check bits
  exact ⟨page, bits', hcheck, h.main_of_passes (Page.passes_of_check hcheck), hbits⟩

/-- Four bits of the third sector and its parity are wrong. -/
def worn : List Position := [.data 0, .data 4095, .parity 0, .parity 51]

theorem damaged_worn (source : Vector UInt8 2048) :
    Damaged (encoded source) (fun i => if i = 2 then worn else [])
      ((encoded source).setSector 2 (worn.foldl Sector.flip ((encoded source).sector 2))) where
  sector i hi := by
    by_cases hi2 : i = 2
    · subst hi2
      exact Page.sector_setSector_self _ (by decide)
    · rw [Page.sector_setSector_of_ne _ (by decide) hi hi2, if_neg hi2]
      rfl
  nodup i _ := by split <;> decide
  few i _ := by split <;> decide
  magic := Page.magic_setSector _ (by decide)
  crc := Page.crc_setSector _ (by decide)

theorem check_restores_worn : ∃ page bits',
    ((encoded (Vector.replicate 2048 0xA5)).setSector 2 (worn.foldl Sector.flip
      ((encoded (Vector.replicate 2048 0xA5)).sector 2))).check 7 = (some page, bits') ∧
      page.main = List.replicate 2048 0xA5 ∧ (7 + 4 < 2 ^ 32 → bits'.toNat = 7 + 4) := by
  obtain ⟨page, bits', hcheck, hmain, hbits⟩ :=
    check_restores (damaged_worn (Vector.replicate 2048 0xA5)) 7
  exact ⟨page, bits', hcheck, hmain.trans Vector.toList_replicate, hbits⟩

end restored
end Atoman.Nand
