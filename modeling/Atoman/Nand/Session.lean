import Atoman.Nand.Discipline

/-!
# Calls of the NAND driver

The calls come in any order and with any arguments, and between them the caller stores what it
likes, except in the destination of a read that is going on. Beside the driver stands the read
that was accepted last and the record of the chip at that time.
-/

namespace Atoman.Nand
open Lib

/-- A call of the driver, or a store of its caller. -/
inductive Call
  | init (i : Startup)
  | state (i : Poll)
  | read_data (address length : ℕ) (p_data : Option ℕ) (tick : UInt32)
  | program (address length : ℕ) (p_data : Option ℕ) (tick : UInt32)
  | erase (address length : ℕ) (tick : UInt32)
  | store (offset : ℕ) (data : List UInt8)

/-- A read, and the record before it. -/
structure Request where
  address : ℕ
  length : ℕ
  p_data : ℕ
  before : List Access

/-- The driver and the read it accepted last. -/
structure Session where
  driver : Driver
  request : Option Request

/-- The reads of `raws`, page after page. -/
def fetches : ℕ → List Page → List Access
  | _, [] => []
  | row, raw :: raws =>
    (probe (row / 64) ++ [Access.read row 0, .page raw]) ++ fetches (row + 1) raws

theorem fetches_concat (row : ℕ) (raws : List Page) (raw : Page) :
    fetches row (raws ++ [raw]) = fetches row raws ++
      (probe ((row + raws.length) / 64) ++ [Access.read (row + raws.length) 0, .page raw]) := by
  induction raws generalizing row with
  | nil => simp [fetches]
  | cons x raws ih =>
    rw [List.cons_append, fetches, fetches, ih, List.append_assoc, List.length_cons]
    rw [Nat.add_right_comm, Nat.add_assoc row]
    simp only [List.append_assoc]

/-- The pages the read took passed their check, and the destination holds the range of what they
were corrected to. -/
def Delivered (r : Request) (s : Driver) : Prop :=
  ∃ raws pages, s.chip = r.before ++ fetches (r.address / 2048) raws ∧
    List.Forall₂ Passes raws pages ∧
    s.memory.slice r.p_data r.length =
      ((pages.flatMap Page.main).drop (r.address % 2048)).take r.length

/-! ## A read that is going on -/

/-- A read is going on. -/
def Driver.Reading (s : Driver) : Prop :=
  s.health.error = 0 ∧ s.phase ≠ .idle ∧ s.operation = .read

theorem Driver.not_reading {s : Driver} {error : ℤ} (h : error ≠ 0)
    (hs : s.health.error = error) : ¬ s.Reading :=
  fun hread => h (hs.symm.trans hread.1)

theorem Driver.issue_operation (s : Driver) (tick : UInt32) :
    (s.issue tick).operation = s.operation := by
  cases hop : s.operation <;> simp [issue, hop, readStart, access]

/-- A read that goes on after a request was going on before, or is this one. -/
theorem Driver.reading_submit {s : Driver} {address length : ℕ} {op : Operation} {tick : UInt32}
    (hread : (s.submit address length op tick).1.Reading) :
    (s.submit address length op tick).1 = s ∧ (s.submit address length op tick).2 ≠ .success ∨
      op = .read ∧ (s.submit address length op tick).2 = .success ∧ length ≠ 0 ∧
        (s.submit address length op tick).1 =
          { ({ s with current_address := address, remaining := length, operation := op } :
            Driver).readStart (address / (64 * 2048) * 64) 2048 tick with phase := .mark0 } := by
  have hsubmit := s.submits_submit address length op tick
  generalize s.submit address length op tick = r at hread hsubmit ⊢
  cases hsubmit with
  | refused h => exact Or.inl ⟨rfl, h⟩
  | failed h => exact absurd hread (not_reading h rfl)
  | accepted _ hlength => exact Or.inr ⟨hread.2.2, rfl, hlength, rfl⟩

/-- How many bytes of the range `n` pages hold. -/
def Request.copied (r : Request) (n : ℕ) : ℕ := 2048 * n - r.address % 2048

/-- The pages `raws` were taken, checked and copied. -/
structure Fetched (r : Request) (raws pages : List Page) (s : Driver) : Prop where
  chip : s.chip = r.before ++ fetches (r.address / 2048) raws ++ s.pending
  passes : List.Forall₂ Passes raws pages
  address : s.current_address = r.address + r.copied raws.length
  remaining : s.remaining + r.copied raws.length = r.length
  positive : s.remaining ≠ 0
  destination : s.p_destination = r.p_data + r.copied raws.length
  memory : s.memory.slice r.p_data (r.copied raws.length) =
    (pages.flatMap Page.main).drop (r.address % 2048)

section Fetched
variable {r : Request} {raws pages : List Page} {s : Driver} {raw page : Page} {bits : UInt32}

theorem length_mains (pages : List Page) :
    (pages.flatMap Page.main).length = 2048 * pages.length := by
  induction pages with
  | nil => rfl
  | cons page pages ih =>
    rw [List.flatMap_cons, List.length_append, ih, Page.length_main, List.length_cons]
    omega

namespace Fetched

theorem row (h : Fetched r raws pages s) : s.row = r.address / 2048 + raws.length := by
  have haddress := h.address
  unfold Request.copied at haddress
  unfold Driver.row
  omega

theorem offset (h : Fetched r raws pages s) :
    s.offset = r.address % 2048 - 2048 * raws.length := by
  have haddress := h.address
  unfold Request.copied at haddress
  unfold Driver.offset
  omega

/-- One more page: the record. -/
theorem chip_page (h : Fetched r raws pages s) (hphase : s.phase = .read) :
    s.chip ++ [Access.page raw] = r.before ++ fetches (r.address / 2048) (raws ++ [raw]) := by
  rw [h.chip, Driver.pending, hphase, fetches_concat, ← h.row, s.row_div]
  simp

/-- One more page: the destination. -/
theorem memory_copy (h : Fetched r raws pages s) (page : Page) (bits : UInt32) :
    (s.copy page bits).memory.slice r.p_data (r.copied raws.length + s.chunk) =
      (((pages ++ [page]).flatMap Page.main).drop (r.address % 2048)).take
        (r.copied raws.length + s.chunk) := by
  have hlength : ((page.main.drop s.offset).take s.chunk).length = s.chunk := by
    rw [List.length_take, List.length_drop, Page.length_main]
    unfold Driver.chunk
    split_ifs <;> omega
  have hpages : pages.length = raws.length := h.passes.length_eq.symm
  have hbytes : ((pages.flatMap Page.main).drop (r.address % 2048)).length =
      r.copied raws.length := by
    rw [List.length_drop, length_mains, hpages, Request.copied]
  have hcopy := Memory.slice_write_extend ((page.main.drop s.offset).take s.chunk) h.memory
  rw [hlength, ← h.destination] at hcopy
  rw [List.flatMap_append, List.flatMap_singleton, List.drop_append, length_mains, hpages,
    ← h.offset, ← hbytes, List.take_length_add_append, hbytes]
  exact hcopy

theorem chunk_le (s : Driver) : s.chunk ≤ s.remaining := by
  unfold Driver.chunk
  split_ifs <;> omega

/-- The range goes on in the next page. -/
theorem copied_succ (h : Fetched r raws pages s) (raw : Page) (hrest : s.remaining - s.chunk ≠ 0) :
    r.copied (raws ++ [raw]).length = r.copied raws.length + s.chunk := by
  have hoffset := h.offset
  have hchunk : s.chunk = 2048 - s.offset := by
    unfold Driver.chunk at hrest ⊢
    split_ifs at hrest ⊢ <;> omega
  rw [hchunk, List.length_append, List.length_singleton]
  unfold Request.copied
  omega

/-- The second marker page is read. -/
theorem mark1 (h : Fetched r raws pages s) (hphase : s.phase = .mark0) (tick : UInt32) :
    Fetched r raws pages { (s.access (.marker 0xFF)).readStart (s.block * 64 + 1) 2048 tick with
      phase := .mark1 } where
  chip := by
    show s.chip ++ [Access.marker 0xFF] ++ [Access.read (s.block * 64 + 1) 2048] = _
    rw [h.chip, Driver.pending, hphase, List.append_assoc, List.append_assoc]
    rfl
  passes := h.passes
  address := h.address
  remaining := h.remaining
  positive := h.positive
  destination := h.destination
  memory := h.memory

/-- The page is read. -/
theorem issue (h : Fetched r raws pages s) (hphase : s.phase = .mark1) (hop : s.operation = .read)
    (tick : UInt32) : Fetched r raws pages ((s.access (.marker 0xFF)).issue tick) := by
  have hop' : (s.access (.marker 0xFF)).operation = .read := hop
  simp only [Driver.issue, hop']
  refine ⟨?_, h.passes, h.address, h.remaining, h.positive, h.destination, h.memory⟩
  show s.chip ++ [Access.marker 0xFF] ++ [Access.read s.row 0] = _
  rw [h.chip, Driver.pending, hphase, List.append_assoc, List.append_assoc]
  rfl

/-- The first marker page of the next block is read. -/
theorem next (h : Fetched r raws pages s) (hphase : s.phase = .read) (hpage : Passes raw page)
    {t : Driver} (ht : t = (s.access (.page raw)).copy page bits) (hrest : t.remaining ≠ 0)
    (tick : UInt32) : Fetched r (raws ++ [raw]) (pages ++ [page])
      { t.readStart (t.block * 64) 2048 tick with phase := .mark0 } := by
  have hremaining : t.remaining = s.remaining - s.chunk := by rw [ht]; rfl
  have hcopied := h.copied_succ raw (by rwa [← hremaining])
  have hle := chunk_le s
  have hchip : t.chip = s.chip ++ [Access.page raw] := by rw [ht]; rfl
  refine ⟨?_, List.rel_append h.passes (List.Forall₂.cons hpage .nil), ?_, ?_, hrest, ?_, ?_⟩
  · show t.chip ++ [Access.read (t.block * 64) 2048] = _
    rw [hchip, h.chip_page hphase]
    rfl
  · show t.current_address = _
    rw [hcopied, ← Nat.add_assoc, ← h.address, ht]
    rfl
  · show t.remaining + _ = _
    rw [hcopied, hremaining, ← h.remaining]
    omega
  · show t.p_destination = _
    rw [hcopied, ← Nat.add_assoc, ← h.destination, ht]
    rfl
  · show t.memory.slice _ _ = _
    have hbytes : (((pages ++ [page]).flatMap Page.main).drop (r.address % 2048)).length =
        r.copied raws.length + s.chunk := by
      rw [List.length_drop, length_mains, ← hcopied, Request.copied, List.length_append,
        List.length_append, h.passes.length_eq]
      rfl
    have hmemory := h.memory_copy page bits
    rw [List.take_of_length_le (Nat.le_of_eq hbytes)] at hmemory
    rw [hcopied, ht]
    exact hmemory

/-- The last page ends the read. -/
theorem last (h : Fetched r raws pages s) (hphase : s.phase = .read) (hpage : Passes raw page)
    (hrest : ((s.access (.page raw)).copy page bits).remaining = 0) :
    Delivered r { (s.access (.page raw)).copy page bits with phase := .idle } := by
  have hle := chunk_le s
  have hlength : r.copied raws.length + s.chunk = r.length := by
    have hrest' : s.remaining - s.chunk = 0 := hrest
    rw [← h.remaining]
    omega
  have hmemory := h.memory_copy page bits
  rw [hlength] at hmemory
  exact ⟨raws ++ [raw], pages ++ [page], h.chip_page hphase,
    List.rel_append h.passes (List.Forall₂.cons hpage .nil), hmemory⟩

end Fetched
end Fetched

/-! ## Sessions -/

namespace Session
variable (s : Session)

/-- The last read accepted, after a read is asked for. -/
def asked (address length : ℕ) (p_data : Option ℕ) (result : Result) : Option Request :=
  if result = .success then
    p_data.map fun p_data => ⟨address, length, p_data, s.driver.chip⟩
  else s.request

def exec : Call → Session
  | .init i => { s with driver := (s.driver.init i).1 }
  | .state i => { s with driver := (s.driver.state i).1 }
  | .read_data address length p_data tick =>
    let r := s.driver.readData address length p_data tick
    ⟨r.1, s.asked address length p_data r.2⟩
  | .program address length p_data tick =>
    { s with driver := (s.driver.program address length p_data tick).1 }
  | .erase address length tick => { s with driver := (s.driver.erase address length tick).1 }
  | .store offset data =>
    { s with driver := { s.driver with memory := s.driver.memory.write offset data } }

/-- The caller keeps off the destination of a read that is going on. -/
def Permitted : Call → Prop
  | .store offset data => s.driver.Reading → ∀ r, s.request = some r →
      offset + data.length ≤ r.p_data ∨ r.p_data + r.length ≤ offset
  | _ => True

/-- The statics are zero. -/
def Starts : Prop :=
  s.driver.phase = .idle ∧ s.driver.health.error = 0 ∧ (s.driver.erased = fun _ => false) ∧
    (s.driver.rejected = fun _ => false) ∧ s.driver.chip = []

/-- Every sequence of calls. -/
def sessions : Transition Session := Transition.driven Starts exec Permitted

/-- What holds between the calls. -/
structure Holds : Prop where
  keeps : s.driver.Keeps
  fetched : s.driver.Reading → ∃ r, s.request = some r ∧ ∃ raws pages, Fetched r raws pages s.driver

variable {s}

/-- A state that is read on is carried on by `state`, or delivered. -/
theorem Holds.state (h : Holds s) (i : Poll) : Holds (s.exec (.state i)) := by
  refine ⟨h.keeps.state i, ?_⟩
  show (s.driver.state i).1.Reading → ∃ r, s.request = some r ∧
    ∃ raws pages, Fetched r raws pages (s.driver.state i).1
  generalize hr : s.driver.state i = t
  have hturn := s.driver.turn_state i
  rw [hr] at hturn
  cases hturn with
  | rest => exact h.fetched
  | mark1 herror hphase =>
    rintro ⟨-, -, hop⟩
    obtain ⟨r, hrequest, raws, pages, hf⟩ := h.fetched ⟨herror, by simp [hphase], hop⟩
    exact ⟨r, hrequest, raws, pages, hf.mark1 hphase _⟩
  | issue herror hphase =>
    rintro ⟨-, -, hop'⟩
    have hop : s.driver.operation = .read := 
      (Driver.issue_operation (s.driver.access (.marker 0xFF)) _).symm.trans hop'
    obtain ⟨r, hrequest, raws, pages, hf⟩ := h.fetched ⟨herror, by simp [hphase], hop⟩
    exact ⟨r, hrequest, raws, pages, hf.issue hphase hop _⟩
  | next herror hphase hpage hrest ht =>
    intro _
    obtain ⟨r, hrequest, raws, pages, hf⟩ :=
      h.fetched ⟨herror, by simp [hphase], h.keeps.reading hphase⟩
    exact ⟨r, hrequest, _, _, hf.next hphase hpage ht (by rwa [ht]) _⟩
  | late => exact (Driver.not_reading (show (-2 : ℤ) ≠ 0 by decide) rfl).elim
  | bad => exact (Driver.not_reading (show (-4 : ℤ) ≠ 0 by decide) rfl).elim
  | corrupt => exact (Driver.not_reading (show (-5 : ℤ) ≠ 0 by decide) rfl).elim
  | rejected => exact (Driver.not_reading (show (-4 : ℤ) ≠ 0 by decide) rfl).elim
  | failed => exact (Driver.not_reading (show (-6 : ℤ) ≠ 0 by decide) rfl).elim
  | last => exact fun hread => absurd rfl hread.2.1
  | erased => exact fun hread => absurd rfl hread.2.1
  | programmed => exact fun hread => absurd rfl hread.2.1

theorem Holds.init (h : Holds s) (i : Startup) : Holds (s.exec (.init i)) := by
  refine ⟨h.keeps.init i, fun hread => absurd ?_ hread.2.1⟩
  show (s.driver.init i).1.phase = .idle
  unfold Driver.init
  dsimp only
  split_ifs <;> rfl

theorem Holds.program (h : Holds s) (address length : ℕ) (p_data : Option ℕ) (tick : UInt32) :
    Holds (s.exec (.program address length p_data tick)) := by
  have hsubmit := h.keeps.submit address length .program tick
  cases p_data with
  | none => exact h
  | some p_data =>
    simp only [exec, Driver.program]
    split_ifs with hresult
    · refine ⟨⟨⟨hsubmit.1.1, hsubmit.1.2, hsubmit.1.3, hsubmit.1.4⟩, hsubmit.2, hsubmit.3,
        hsubmit.4, hsubmit.5, hsubmit.6⟩, fun hread => ?_⟩
      rcases Driver.reading_submit hread with ⟨-, hne⟩ | ⟨hop, -⟩
      · exact absurd hresult hne
      · exact absurd hop (by simp)
    · refine ⟨hsubmit, fun hread => ?_⟩
      rcases Driver.reading_submit hread with ⟨heq, -⟩ | ⟨hop, -⟩
      · simp only [heq] at hread ⊢
        exact h.fetched hread
      · exact absurd hop (by simp)

theorem Holds.erase (h : Holds s) (address length : ℕ) (tick : UInt32) :
    Holds (s.exec (.erase address length tick)) := by
  refine ⟨h.keeps.submit address length .erase tick, fun hread => ?_⟩
  rcases Driver.reading_submit hread with ⟨heq, -⟩ | ⟨hop, -⟩
  · simp only [exec, Driver.erase, heq] at hread ⊢
    exact h.fetched hread
  · exact absurd hop (by simp)

/-- An accepted read begins with the record as it was. -/
theorem Holds.read_data (h : Holds s) (address length : ℕ) (p_data : Option ℕ) (tick : UInt32) :
    Holds (s.exec (.read_data address length p_data tick)) := by
  have hsubmit := h.keeps.submit address length .read tick
  cases p_data with
  | none => exact h
  | some p_data =>
    simp only [exec, Driver.readData]
    split_ifs with hlength hresult
    · exact h
    · refine ⟨⟨⟨hsubmit.1.1, hsubmit.1.2, hsubmit.1.3, hsubmit.1.4⟩, hsubmit.2, hsubmit.3,
        hsubmit.4, hsubmit.5, hsubmit.6⟩, fun hread => ?_⟩
      rcases Driver.reading_submit hread with ⟨-, hne⟩ | ⟨-, -, hlength, ht⟩
      · exact absurd hresult hne
      · have hcopied : Request.copied ⟨address, length, p_data, s.driver.chip⟩ 0 = 0 := by
          simp [Request.copied]
        refine ⟨⟨address, length, p_data, s.driver.chip⟩, by simp [asked, hresult], [], [], ?_⟩
        simp only [ht]
        refine ⟨?_, .nil, ?_, ?_, hlength, ?_, ?_⟩
        · show s.driver.chip ++ _ = s.driver.chip ++ [] ++ _
          rw [List.append_nil]
          rfl
        all_goals rw [List.length_nil, hcopied]
        any_goals rfl
        exact List.drop_nil.symm
    · refine ⟨hsubmit, fun hread => ?_⟩
      rcases Driver.reading_submit hread with ⟨heq, -⟩ | ⟨-, ht⟩
      · simp only [heq, asked, hresult] at hread ⊢
        exact h.fetched hread
      · exact absurd ht.1 hresult

theorem Holds.store (h : Holds s) {offset : ℕ} {data : List UInt8}
    (hp : s.Permitted (.store offset data)) : Holds (s.exec (.store offset data)) := by
  have hk := h.keeps
  refine ⟨⟨⟨hk.1.1, hk.1.2, hk.1.3, hk.1.4⟩, hk.2, hk.3, hk.4, hk.5, hk.6⟩, fun hread => ?_⟩
  obtain ⟨r, hrequest, raws, pages, hf⟩ := h.fetched hread
  have hapart := hp hread r hrequest
  have hremaining := hf.remaining
  refine ⟨r, hrequest, raws, pages, hf.chip, hf.passes, hf.address, hf.remaining, hf.positive,
    hf.destination, ?_⟩
  rw [← hf.memory]
  exact Memory.slice_write_disjoint _ _ (by omega)

theorem Holds.start (h : s.Starts) : Holds s := by
  obtain ⟨hphase, -, herased, hrejected, hchip⟩ := h
  have hlog : Disciplined s.driver.chip := by
    intro before e after heq
    rw [hchip] at heq
    exact absurd heq.symm (by simp)
  refine ⟨⟨⟨hlog, ?_, ?_, ?_⟩, ?_, ?_, ?_, ?_, fun _ => ?_⟩, fun hread => absurd hphase hread.2.1⟩
  any_goals simp [hphase, herased]
  · simp [hchip]
  · simp [Driver.pending, hphase]

/-- Every call keeps what holds. -/
theorem Holds.exec (h : Holds s) {call : Call} (hp : s.Permitted call) : Holds (s.exec call) := by
  cases call with
  | init i => exact h.init i
  | state i => exact h.state i
  | read_data address length p_data tick => exact h.read_data address length p_data tick
  | program address length p_data tick => exact h.program address length p_data tick
  | erase address length tick => exact h.erase address length tick
  | store offset data => exact h.store hp

theorem Holds.of_reachable (h : sessions.Reachable s) : Holds s :=
  h.driven_invariant (fun _ => Holds.start) fun _ _ hs hp => hs.exec hp

/-- In every session the chip is handled with discipline, and a read that ends READY has
delivered the corrected bytes of pages that passed their checks. -/
theorem keeps_discipline (h : sessions.Reachable s) :
    Disciplined s.driver.chip ∧
      ∀ i, s.driver.phase ≠ .idle → s.driver.operation = .read → (s.driver.state i).2 = .ready →
        ∃ r, s.request = some r ∧ Delivered r (s.driver.state i).1 := by
  have hs := Holds.of_reachable h
  refine ⟨hs.keeps.disciplined, fun i hidle hop hready => ?_⟩
  have hturn := s.driver.turn_state i
  generalize s.driver.state i = t at hready hturn ⊢
  cases hturn with
  | rest hrest => exact absurd (hrest hready) hidle
  | last herror hphase hpage hrest =>
    obtain ⟨r, hrequest, raws, pages, hf⟩ := hs.fetched ⟨herror, hidle, hop⟩
    exact ⟨r, hrequest, hf.last hphase hpage hrest⟩
  | erased _ hphase => exact absurd ((hs.keeps.erasing hphase).symm.trans hop) (by simp)
  | programmed _ hphase => exact absurd ((hs.keeps.programming hphase).symm.trans hop) (by simp)
  | _ => simp at hready

/-- Four bytes of a blank page are read; `state` is called twice. -/
def blankRead : Session :=
  let statics : Driver := ⟨.idle, ⟨0, 0, 0, 0⟩, fun _ => false, fun _ => false, fun _ => 0, 0, 0, 0,
    .read, 0, 0, fun _ => 0, []⟩
  let poll : Poll := ⟨(2, 2, 0), 0x40, 0xFF, Vector.replicate 2176 0xFF⟩
  [.read_data 6 4 (some 1) 0, .state poll, .state poll].foldl exec ⟨statics, none⟩

theorem blankRead_delivers : ∃ r, blankRead.request = some r ∧
    Delivered r (blankRead.driver.state ⟨(2, 2, 0), 0x40, 0xFF, Vector.replicate 2176 0xFF⟩).1 := by
  refine (keeps_discipline (s := blankRead) ?_).2 _ (by decide) (by decide) (by decide +kernel)
  exact Transition.Admits.reachable (by simp [Transition.Admits, Permitted])
    (.start ⟨rfl, rfl, rfl, rfl, rfl⟩)

end Session
end Atoman.Nand
