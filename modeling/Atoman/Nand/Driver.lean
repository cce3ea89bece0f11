import Atoman.Bch4.Codec
import Atoman.DemoStorage.Record

/-!
# The NAND driver

`bsp_nand_flash.c`: a read, a program or an erase is begun by a call and carried on by calls of
`state`. Each probes the bad-block markers of both first pages of its block before it touches the
page. NAND_PAGE is 2048, a block has 64 pages and the chip 1024 blocks. `chip` records what the
driver has done to the chip, and what came of it.
-/

namespace Atoman.Nand
open Lib Bch4 DemoStorage

/-- Main area and OOB of a page. -/
abbrev Page := Vector UInt8 2176

/-- What the driver does to the chip, and what it concludes. -/
inductive Access
  /-- `read_start` -/
  | read (row column : ℕ)
  /-- the first byte behind a `read_start` is taken -/
  | marker (value : UInt8)
  /-- all bytes behind a `read_start` are taken -/
  | page (data : Page)
  | program (row : ℕ) (data : List UInt8)
  | erase (row : ℕ)
  /-- the chip is initialised -/
  | reset
  /-- an erase has succeeded -/
  | erased (block : ℕ)
  /-- a block is given up -/
  | quarantined (block : ℕ)
deriving DecidableEq

/-! ## Pages -/

namespace Page
variable (p : Page)

/-- The main area. -/
def main : List UInt8 := p.toList.take 2048

/-- The `i`-th sector and its parity. -/
def sector (i : ℕ) : Sector :=
  ⟨Vector.ofFn fun j => p[512 * i + j.val]!, Vector.ofFn fun j => p[2064 + 7 * i + j.val]!⟩

def setSector (i : ℕ) (σ : Sector) : Page :=
  Vector.ofFn fun k : Fin 2176 =>
    if 512 * i ≤ k.val ∧ k.val < 512 * i + 512 then σ.data[k.val - 512 * i]!
    else if 2064 + 7 * i ≤ k.val ∧ k.val < 2064 + 7 * i + 7 then σ.ecc[k.val - (2064 + 7 * i)]!
    else p[k]

def blank : Bool := p.toList.all (· == 0xFF)

/-- The loop of `page_check`: the sectors from `i` on, `left` of them. A sector that cannot be
corrected ends it, and what was counted before stays counted. -/
def correctSectors (p : Page) (corrected_bits : UInt32) : ℕ → ℕ → Option Page × UInt32
  | _, 0 => (some p, corrected_bits)
  | i, left + 1 =>
    let r := correctSector (p.sector i)
    if r.1 < 0 then (none, corrected_bits)
    else
      let count := UInt32.ofInt r.1
      let corrected_bits := if count ≤ 0xFFFFFFFF - corrected_bits then corrected_bits + count
        else corrected_bits
      correctSectors (p.setSector i r.2) corrected_bits (i + 1) left

/-- `page_check`: the page as it leaves it, if it passes, and `health.corrected_bits`. -/
def check (corrected_bits : UInt32) : Option Page × UInt32 :=
  if p.blank then (some p, corrected_bits)
  else if readU32Le p.toList 2056 ≠ 0x314C4146 then (none, corrected_bits)
  else
    match p.correctSectors corrected_bits 0 4 with
    | (none, corrected_bits) => (none, corrected_bits)
    | (some p, corrected_bits) =>
      (if crc32 p.main = readU32Le p.toList 2060 then some p else none, corrected_bits)

end Page

/-- The page that is programmed: the source, and in the OOB the magic word, the CRC and the parity
of the sectors. -/
def encodePage (source : Vector UInt8 2048) : List UInt8 :=
  let parityOf (i : ℕ) : List UInt8 :=
    (parity (Vector.ofFn fun j => source[512 * i + j.val]!)).toList
  source.toList ++ List.replicate 8 0xFF ++ u32Le 0x314C4146 ++ u32Le (crc32 source.toList) ++
    (List.range 4).flatMap parityOf ++ List.replicate 84 0xFF

/-! ## The state -/

/-- `NAND_PHASE_E` -/
inductive Phase
  | idle
  | mark0
  | mark1
  | read
  | program
  | erase
deriving DecidableEq

inductive Operation
  | read
  | program
  | erase
deriving DecidableEq

/-- `BSP_FLASH_STATE_E` -/
inductive Status
  | error
  | ready
  | busy
deriving DecidableEq

/-- `BSP_FLASH_RESULT_E` -/
inductive Result
  | success
  | invalid_argument
  | io_error
deriving DecidableEq

/-- `bsp_flash_health_t` -/
structure Health where
  id : UInt32
  error : ℤ
  bad_blocks : UInt32
  corrected_bits : UInt32

/-- The statics of the driver, the memory of its callers and the record of the chip. -/
structure Driver where
  phase : Phase
  health : Health
  rejected : ℕ → Bool
  erased : ℕ → Bool
  next_page : ℕ → ℕ
  current_address : ℕ
  remaining : ℕ
  /-- 100 us ticks -/
  started : UInt32
  operation : Operation
  p_destination : ℕ
  p_source : ℕ
  memory : Memory UInt8
  chip : List Access

/-- What the chip and the tick counter answer to one call of `state`. -/
structure Poll where
  /-- at the check of the minimum delay, at that of the timeout, at the start of a command -/
  ticks : UInt32 × UInt32 × UInt32
  status : UInt8
  marker : UInt8
  page : Page

/-- What they answer to `init`. -/
structure Startup where
  started : UInt32
  /-- the rounds of the loop, at most 100000 of them -/
  polls : List (UInt32 × UInt8)
  id : Vector UInt8 5

namespace Driver
variable (s : Driver)

/-- The block of the current address. -/
def block : ℕ := s.current_address / (64 * 2048)

def row : ℕ := s.current_address / 2048

def setError (error : ℤ) : Driver := { s with health := { s.health with error := error } }

def access (e : Access) : Driver := { s with chip := s.chip ++ [e] }

/-! ## Chip operations -/

def readStart (row column : ℕ) (tick : UInt32) : Driver :=
  { s.access (.read row column) with started := tick }

def reject : Driver :=
  if s.block < 1024 ∧ s.rejected s.block = false then
    { s.access (.quarantined s.block) with
      rejected := Function.update s.rejected s.block true
      health := { s.health with bad_blocks := s.health.bad_blocks + 1 } }
  else s

def quarantine (error : ℤ) : Driver := s.reject.setError error

def init (i : Startup) : Driver × Result :=
  let s := { s.access .reset with
    health := { s.health with error := 0 }
    phase := .idle
    erased := fun _ => false
    started := i.started }
  let ready := (i.polls.take 100000).any fun (now, status) =>
    decide (2 ≤ now - i.started) && status &&& 0x40 != 0
  if ready then
    let id := u32OfBytes i.id[3] i.id[2] i.id[1] i.id[0]
    let s := { s with health := { s.health with id := id } }
    if id ≠ 0xC8F1801D ∨ i.id[4] ≠ 0x42 then (s.setError (-1), .io_error)
    else (s, .success)
  else (s.setError (-2), .io_error)

def issue (tick : UInt32) : Driver :=
  match s.operation with
  | .read => { s.readStart s.row 0 tick with phase := .read }
  | .program =>
    let source : Vector UInt8 2048 := Vector.ofFn fun j => s.memory (s.p_source + j.val)
    { s.access (.program s.row (encodePage source)) with started := tick, phase := .program }
  | .erase => { s.access (.erase s.row) with started := tick, phase := .erase }

/-! ## `state` -/

/-- The branch of the two marker phases. -/
def stateMark (i : Poll) : Driver × Status :=
  let s := s.access (.marker i.marker)
  if i.marker ≠ 0xFF then (s.quarantine (-4), .error)
  else if s.phase = .mark0 then
    ({ s.readStart (s.block * 64 + 1) 2048 i.ticks.2.2 with phase := .mark1 }, .busy)
  else (s.issue i.ticks.2.2, .busy)

/-- Offset within the current page. -/
def offset : ℕ := s.current_address % 2048

/-- Bytes to copy from that page. -/
def chunk : ℕ := if 2048 - s.offset > s.remaining then s.remaining else 2048 - s.offset

def count (corrected_bits : UInt32) : Driver :=
  { s with health := { s.health with corrected_bits := corrected_bits } }

/-- A chunk of a checked page is copied. -/
def copy (page : Page) (corrected_bits : UInt32) : Driver :=
  { s with
    health := { s.health with corrected_bits := corrected_bits }
    memory := s.memory.write s.p_destination ((page.main.drop s.offset).take s.chunk)
    p_destination := s.p_destination + s.chunk
    current_address := s.current_address + s.chunk
    remaining := s.remaining - s.chunk }

/-- The branch of a page that was read. -/
def stateRead (i : Poll) : Driver × Status :=
  let s := s.access (.page i.page)
  match i.page.check s.health.corrected_bits with
  | (none, corrected_bits) => ((s.count corrected_bits).setError (-5), .error)
  | (some page, corrected_bits) =>
    let s := s.copy page corrected_bits
    if s.remaining ≠ 0 then
      if s.rejected s.block then (s.setError (-4), .error)
      else ({ s.readStart (s.block * 64) 2048 i.ticks.2.2 with phase := .mark0 }, .busy)
    else ({ s with phase := .idle }, .ready)

/-- The branch of a program or an erase. -/
def stateWrite (i : Poll) : Driver × Status :=
  if i.status &&& 0x81 ≠ 0x80 then (s.quarantine (-6), .error)
  else if s.phase = .erase then
    ({ s.access (.erased s.block) with
      erased := Function.update s.erased s.block true
      next_page := Function.update s.next_page s.block 0
      phase := .idle }, .ready)
  else
    ({ s with
      next_page := Function.update s.next_page s.block (s.row % 64 + 1)
      phase := .idle }, .ready)

def state (i : Poll) : Driver × Status :=
  if s.health.error ≠ 0 then (s, .error)
  else if s.phase = .idle then (s, .ready)
  else if i.ticks.1 - s.started < 2 then (s, .busy)
  else if i.status &&& 0x40 = 0 then
    if i.ticks.2.1 - s.started > 10000 then (s.setError (-2), .error) else (s, .busy)
  else if s.phase = .mark0 ∨ s.phase = .mark1 then s.stateMark i
  else if s.phase = .read then s.stateRead i
  else s.stateWrite i

/-! ## Requests -/

/-- `begin`. -/
def submit (address length : ℕ) (op : Operation) (tick : UInt32) : Driver × Result :=
  let block := address / (64 * 2048)
  if s.phase ≠ .idle ∨ s.health.error ≠ 0 ∨ 1024 * (64 * 2048) ≤ address ∨ length = 0 ∨
      length > 1024 * (64 * 2048) - address then (s, .invalid_argument)
  else if s.rejected block then (s.setError (-4), .io_error)
  else if op = .program ∧ (address % 2048 ≠ 0 ∨ length ≠ 2048 ∨ s.erased block = false ∨
      address / 2048 % 64 < s.next_page block) then (s.setError (-7), .io_error)
  else if op = .erase ∧ (address % (64 * 2048) ≠ 0 ∨ length ≠ 64 * 2048) then
    (s, .invalid_argument)
  else
    let s := { s with current_address := address, remaining := length, operation := op }
    ({ s.readStart (block * 64) 2048 tick with phase := .mark0 }, .success)

/-- `read_data`; a null pointer is `none`. -/
def readData (address length : ℕ) (p_data : Option ℕ) (tick : UInt32) : Driver × Result :=
  match p_data with
  | none => (s, .invalid_argument)
  | some p_data =>
    if length > 2048 then (s, .invalid_argument)
    else
      let r := s.submit address length .read tick
      if r.2 = .success then ({ r.1 with p_destination := p_data }, r.2) else r

def program (address length : ℕ) (p_data : Option ℕ) (tick : UInt32) : Driver × Result :=
  match p_data with
  | none => (s, .invalid_argument)
  | some p_data =>
    let r := s.submit address length .program tick
    if r.2 = .success then ({ r.1 with p_source := p_data }, r.2) else r

def erase (address length : ℕ) (tick : UInt32) : Driver × Result :=
  s.submit address length .erase tick

end Driver

/-! ## What a page passes -/

/-- A page that was never programmed, or one with the magic word, four sectors that BCH corrects
and the CRC of what they become. -/
inductive Passes (raw : Page) : Page → Prop
  | blank (h : raw.blank = true) : Passes raw raw
  | corrected {page : Page} (magic : readU32Le raw.toList 2056 = 0x314C4146)
      (sectors : ∀ i < 4, 0 ≤ (correctSector (raw.sector i)).1 ∧
        page.sector i = (correctSector (raw.sector i)).2)
      (crc : crc32 page.main = readU32Le raw.toList 2060) : Passes raw page

namespace Page
variable {p q : Page} {i j : ℕ}

theorem getElem_setSector (σ : Sector) {k : ℕ} (h : k < 2176) :
    (p.setSector i σ)[k] = if 512 * i ≤ k ∧ k < 512 * i + 512 then σ.data[k - 512 * i]!
      else if 2064 + 7 * i ≤ k ∧ k < 2064 + 7 * i + 7 then σ.ecc[k - (2064 + 7 * i)]!
      else p[k] := by
  simp [setSector]

theorem sector_ext {σ τ : Sector} (hdata : ∀ k (h : k < 512), σ.data[k] = τ.data[k])
    (hecc : ∀ k (h : k < 7), σ.ecc[k] = τ.ecc[k]) : σ = τ := by
  obtain ⟨data, ecc⟩ := σ
  obtain ⟨data', ecc'⟩ := τ
  rw [Sector.mk.injEq]
  exact ⟨Vector.ext hdata, Vector.ext hecc⟩

theorem data_sector {k : ℕ} (h : k < 512) (hk : 512 * i + k < 2176) :
    (p.sector i).data[k] = p[512 * i + k] := by
  simp [sector, hk]

theorem ecc_sector {k : ℕ} (h : k < 7) (hk : 2064 + 7 * i + k < 2176) :
    (p.sector i).ecc[k] = p[2064 + 7 * i + k] := by
  simp [sector, hk]

/-- A sector that is set is read back. -/
theorem sector_setSector_self (σ : Sector) (hi : i < 4) : (p.setSector i σ).sector i = σ := by
  refine sector_ext (fun k h => ?_) fun k h => ?_
  · have hk : 512 * i + k < 2176 := by omega
    rw [data_sector h hk, getElem_setSector σ hk, if_pos (by omega)]
    simp [h]
  · have hk : 2064 + 7 * i + k < 2176 := by omega
    rw [ecc_sector h hk, getElem_setSector σ hk, if_neg (by omega), if_pos (by omega)]
    simp [h]

theorem sector_setSector_of_ne (σ : Sector) (hi : i < 4) (hj : j < 4) (hne : j ≠ i) :
    (p.setSector i σ).sector j = p.sector j := by
  refine sector_ext (fun k h => ?_) fun k h => ?_
  · have hk : 512 * j + k < 2176 := by omega
    rw [data_sector h hk, data_sector h hk, getElem_setSector σ hk, if_neg (by omega),
      if_neg (by omega)]
  · have hk : 2064 + 7 * j + k < 2176 := by omega
    rw [ecc_sector h hk, ecc_sector h hk, getElem_setSector σ hk, if_neg (by omega),
      if_neg (by omega)]

/-- The CRC is in no sector. -/
theorem crc_setSector (σ : Sector) (hi : i < 4) :
    readU32Le (p.setSector i σ).toList 2060 = readU32Le p.toList 2060 := by
  have hkeep : ∀ k, 2060 ≤ k → k < 2064 →
      (p.setSector i σ).toList.getD k 0 = p.toList.getD k 0 := by
    intro k hk hk'
    have hlt : k < 2176 := by omega
    have h := getElem_setSector (p := p) (i := i) σ hlt
    rw [if_neg (by omega), if_neg (by omega)] at h
    simp [hlt, h]
  unfold readU32Le
  rw [hkeep 2060 (by decide) (by decide), hkeep (2060 + 1) (by decide) (by decide),
    hkeep (2060 + 2) (by decide) (by decide), hkeep (2060 + 3) (by decide) (by decide)]

/-- The loop corrects its sectors and leaves the others and the CRC as they are. -/
theorem correctSectors_spec {bits bits' : UInt32} {left : ℕ}
    (h : p.correctSectors bits i left = (some q, bits')) (hi : i + left ≤ 4) :
    (∀ j, i ≤ j → j < i + left → 0 ≤ (correctSector (p.sector j)).1 ∧
        q.sector j = (correctSector (p.sector j)).2) ∧
      (∀ j < i, q.sector j = p.sector j) ∧ readU32Le q.toList 2060 = readU32Le p.toList 2060 := by
  induction left generalizing p bits i with
  | zero =>
    obtain ⟨rfl, -⟩ : p = q ∧ bits = bits' := by simpa [correctSectors] using h
    exact ⟨fun j hj hj' => by omega, fun _ _ => rfl, rfl⟩
  | succ left ih =>
    rw [correctSectors] at h
    dsimp only at h
    split_ifs at h with hneg
    · exact absurd (congrArg Prod.fst h) (by simp)
    all_goals
      obtain ⟨hin, hout, hcrc⟩ := ih h (by omega)
      refine ⟨fun j hj hj' => ?_, fun j hj => ?_, hcrc.trans (crc_setSector _ (by omega))⟩
      · rcases Nat.eq_or_lt_of_le hj with rfl | hlt
        · exact ⟨by omega, (hout i (by omega)).trans (sector_setSector_self _ (by omega))⟩
        · have hsame := sector_setSector_of_ne (p := p) (correctSector (p.sector i)).2
            (show i < 4 by omega) (show j < 4 by omega) (by omega)
          have hj := hin j (by omega) (by omega)
          rwa [hsame] at hj
      · rw [hout j (by omega), sector_setSector_of_ne _ (by omega) (by omega) (by omega)]

/-- What `page_check` lets through. -/
theorem passes_of_check {raw page : Page} {bits bits' : UInt32}
    (h : raw.check bits = (some page, bits')) : Passes raw page := by
  unfold check at h
  split_ifs at h with hblank hmagic
  · obtain ⟨rfl, -⟩ : raw = page ∧ bits = bits' := by simpa using h
    exact .blank hblank
  · exact absurd (congrArg Prod.fst h) (by simp)
  · rcases hsectors : raw.correctSectors bits 0 4 with ⟨_ | q, bits''⟩
    · simp [hsectors] at h
    · simp only [hsectors, Option.ite_none_right_eq_some, Option.some.injEq, Prod.mk.injEq] at h
      obtain ⟨⟨hcrc, rfl⟩, -⟩ := h
      obtain ⟨hin, -, hkeep⟩ := correctSectors_spec hsectors (by decide)
      exact .corrected (not_not.mp hmagic) (fun i hi => hin i (by omega) (by omega))
        (hcrc.trans hkeep)

@[simp] theorem length_main (p : Page) : p.main.length = 2048 := by
  simp [main]

end Page
end Atoman.Nand
