import Atoman.Lib.Since
import Atoman.Lib.Transition
import Atoman.Nand.Driver

/-!
# What the NAND driver does to the chip

Which accesses may follow which is a predicate of the record of the chip. The three tables of the
driver say enough about the record to keep it, in any order of calls and whatever the chip
answers. A read that ends READY has left the corrected bytes of its range in the destination.
-/

namespace Atoman.Nand
open Lib

/-! ## The discipline -/

/-- Both marker pages of the block are read, and both markers are 0xFF. -/
def probe (block : ℕ) : List Access :=
  [.read (block * 64) 2048, .marker 0xFF, .read (block * 64 + 1) 2048, .marker 0xFF]

/-- When a page may be programmed. -/
structure Programmable (before : List Access) (row : ℕ) : Prop where
  probed : probe (row / 64) <:+ before
  erased : Access.erased (row / 64) ∈ before
  initialized : Access.reset ∉ since (.erased (row / 64)) before
  whole : Access.quarantined (row / 64) ∉ before
  ascending : ∀ row' data, Access.program row' data ∈ since (.erased (row / 64)) before →
    row' / 64 = row / 64 → row' < row

/-- When an access may come. -/
def Fits (before : List Access) : Access → Prop
  | .read row column => column = 2048 ∨ column = 0 ∧ probe (row / 64) <:+ before
  | .page _ => ∃ row, probe (row / 64) ++ [Access.read row 0] <:+ before
  | .program row _ => Programmable before row
  | .erase row => probe (row / 64) <:+ before
  | _ => True

/-- Every access fits what came before it. -/
def Disciplined (log : List Access) : Prop :=
  ∀ before e after, log = before ++ e :: after → Fits before e

theorem Disciplined.concat {log : List Access} {e : Access} (h : Disciplined log)
    (he : Fits log e) : Disciplined (log ++ [e]) := by
  intro before x after heq
  rcases eq_split_of_concat heq with ⟨-, rfl, rfl⟩ | ⟨rest, -, hlog⟩
  · exact he
  · exact h before x rest hlog

/-! ## Turns -/

namespace Driver
variable {s : Driver} {i : Poll} {e : Access}

/-- What one call of `state` can do. -/
inductive Turn (s : Driver) (i : Poll) : Driver × Status → Prop
  | rest {status : Status} (h : status = .ready → s.phase = .idle) : Turn s i (s, status)
  | late : Turn s i (s.setError (-2), .error)
  | bad (h : i.marker ≠ 0xFF) : Turn s i ((s.access (.marker i.marker)).quarantine (-4), .error)
  | mark1 (herror : s.health.error = 0) (hphase : s.phase = .mark0) :
      Turn s i ({ (s.access (.marker 0xFF)).readStart (s.block * 64 + 1) 2048 i.ticks.2.2 with
        phase := .mark1 }, .busy)
  | issue (herror : s.health.error = 0) (hphase : s.phase = .mark1) :
      Turn s i ((s.access (.marker 0xFF)).issue i.ticks.2.2, .busy)
  | corrupt {bits : UInt32} (herror : s.health.error = 0) (hphase : s.phase = .read) :
      Turn s i (((s.access (.page i.page)).count bits).setError (-5), .error)
  | next {page : Page} {bits : UInt32} (herror : s.health.error = 0) (hphase : s.phase = .read)
      (hpage : Passes i.page page)
      (hrest : ((s.access (.page i.page)).copy page bits).remaining ≠ 0)
      {t : Driver} (ht : t = (s.access (.page i.page)).copy page bits) :
      Turn s i ({ t.readStart (t.block * 64) 2048 i.ticks.2.2 with phase := .mark0 }, .busy)
  | rejected {page : Page} {bits : UInt32} (herror : s.health.error = 0)
      (hphase : s.phase = .read) :
      Turn s i (((s.access (.page i.page)).copy page bits).setError (-4), .error)
  | last {page : Page} {bits : UInt32} (herror : s.health.error = 0) (hphase : s.phase = .read)
      (hpage : Passes i.page page)
      (hrest : ((s.access (.page i.page)).copy page bits).remaining = 0) :
      Turn s i ({ (s.access (.page i.page)).copy page bits with phase := .idle }, .ready)
  | failed : Turn s i (s.quarantine (-6), .error)
  | erased (herror : s.health.error = 0) (hphase : s.phase = .erase) :
      Turn s i ({ s.access (.erased s.block) with
        erased := Function.update s.erased s.block true
        next_page := Function.update s.next_page s.block 0
        phase := .idle }, .ready)
  | programmed (herror : s.health.error = 0) (hphase : s.phase = .program) :
      Turn s i ({ s with
        next_page := Function.update s.next_page s.block (s.row % 64 + 1)
        phase := .idle }, .ready)

theorem turn_stateMark (herror : s.health.error = 0)
    (hphase : s.phase = .mark0 ∨ s.phase = .mark1) : Turn s i (s.stateMark i) := by
  unfold stateMark
  dsimp only
  split_ifs with hmarker h0
  · exact .bad hmarker
  · rw [not_not.mp hmarker]
    exact .mark1 herror h0
  · rw [not_not.mp hmarker]
    exact .issue herror (hphase.resolve_left h0)

theorem turn_stateRead (herror : s.health.error = 0) (hphase : s.phase = .read) :
    Turn s i (s.stateRead i) := by
  unfold stateRead
  dsimp only
  have hsame : (s.access (.page i.page)).health.corrected_bits = s.health.corrected_bits := rfl
  rw [hsame]
  rcases hcheck : i.page.check s.health.corrected_bits with ⟨_ | page, bits⟩
  · exact .corrupt herror hphase
  · have hpage := Page.passes_of_check hcheck
    dsimp only
    split_ifs with hrest hrejected
    · exact .rejected herror hphase
    · exact .next herror hphase hpage hrest rfl
    · exact .last herror hphase hpage (not_not.mp hrest)

theorem turn_stateWrite (herror : s.health.error = 0)
    (hphase : s.phase = .program ∨ s.phase = .erase) : Turn s i (s.stateWrite i) := by
  unfold stateWrite
  split_ifs with hstatus herase
  · exact .failed
  · exact .erased herror herase
  · exact .programmed herror (hphase.resolve_right herase)

theorem turn_state (s : Driver) (i : Poll) : Turn s i (s.state i) := by
  unfold state
  split_ifs with herror hidle _ _ _ hmark hread
  · exact .rest (by simp)
  · exact .rest fun _ => hidle
  · exact .rest (by simp)
  · exact .late
  · exact .rest (by simp)
  · exact turn_stateMark (not_not.mp herror) hmark
  · exact turn_stateRead (not_not.mp herror) hread
  · refine turn_stateWrite (not_not.mp herror) ?_
    cases hphase : s.phase <;> simp_all

/-- What a request can do. -/
inductive Submits (s : Driver) (address length : ℕ) (op : Operation) (tick : UInt32) :
    Driver × Result → Prop
  | refused {result : Result} (h : result ≠ .success) : Submits s address length op tick (s, result)
  | failed {error : ℤ} (h : error ≠ 0) :
      Submits s address length op tick (s.setError error, .io_error)
  | accepted (hphase : s.phase = .idle) (hlength : length ≠ 0)
      (hrejected : s.rejected (address / (64 * 2048)) = false)
      (hprogram : op = .program → s.erased (address / (64 * 2048)) = true ∧
        s.next_page (address / (64 * 2048)) ≤ address / 2048 % 64) :
      Submits s address length op tick
        ({ ({ s with current_address := address, remaining := length, operation := op } :
          Driver).readStart (address / (64 * 2048) * 64) 2048 tick with phase := .mark0 }, .success)

theorem submits_submit (s : Driver) (address length : ℕ) (op : Operation) (tick : UInt32) :
    Submits s address length op tick (s.submit address length op tick) := by
  unfold submit
  dsimp only
  split_ifs with hargs hrejected hprogram herase
  · exact .refused (by simp)
  · exact .failed (by decide)
  · exact .failed (by decide)
  · exact .refused (by simp)
  · push Not at hargs
    refine .accepted hargs.1 hargs.2.2.2.1 (by simpa using hrejected) fun hop => ?_
    simp only [hop, true_and, not_or, Bool.not_eq_false, not_lt] at hprogram
    exact hprogram.2.2

/-! ## The tables -/

/-- The marker reads of the phase, and the page read behind them. -/
def pending (s : Driver) : List Access :=
  match s.phase with
  | .mark0 => [.read (s.block * 64) 2048]
  | .mark1 => [.read (s.block * 64) 2048, .marker 0xFF, .read (s.block * 64 + 1) 2048]
  | .read => probe s.block ++ [Access.read s.row 0]
  | _ => []

/-- What the tables say about the record. -/
structure Tables (s : Driver) : Prop where
  disciplined : Disciplined s.chip
  erased : ∀ b, s.erased b = true →
    Access.erased b ∈ s.chip ∧ Access.reset ∉ since (.erased b) s.chip
  rejected : ∀ b, s.rejected b = false → Access.quarantined b ∉ s.chip
  programmed : ∀ b, s.erased b = true → ∀ row data,
    Access.program row data ∈ since (.erased b) s.chip →
    row / 64 = b → row % 64 < s.next_page b ∨ s.phase = .program ∧ row = s.row

/-- What holds between the calls. -/
structure Keeps (s : Driver) : Prop extends Tables s where
  reading : s.phase = .read → s.operation = .read
  programming : s.phase = .program → s.operation = .program
  erasing : s.phase = .erase → s.operation = .erase
  aim : s.health.error = 0 → s.phase ≠ .idle → s.operation = .program →
    s.erased s.block = true ∧ s.next_page s.block ≤ s.row % 64 ∧
      (s.phase ≠ .program → s.rejected s.block = false)
  pending : s.health.error = 0 → s.pending <:+ s.chip

theorem row_div (s : Driver) : s.row / 64 = s.block := by
  rw [row, block, Nat.div_div_eq_div_mul, Nat.mul_comm]

/-- A program begun earlier goes to an earlier page. -/
theorem Tables.before_row (h : Tables s) (hphase : s.phase ≠ .program)
    (herased : s.erased s.block = true) (hnext : s.next_page s.block ≤ s.row % 64) {row : ℕ}
    {data : List UInt8} (hmem : Access.program row data ∈ since (.erased s.block) s.chip)
    (hblock : row / 64 = s.block) : row < s.row := by
  have hrow := s.row_div
  rcases h.programmed s.block herased row data hmem hblock with hlt | ⟨heq, -⟩
  · omega
  · exact absurd heq hphase

/-- One more access that no table is about. -/
theorem Tables.access (h : Tables s) (hfit : Fits s.chip e) (herased : ∀ b, e ≠ .erased b)
    (hreset : e ≠ .reset) (hquarantined : ∀ b, e ≠ .quarantined b)
    (hprogram : ∀ row data, e ≠ .program row data) : Tables (s.access e) where
  disciplined := h.disciplined.concat hfit
  erased b hb := by
    obtain ⟨hmem, hsince⟩ := h.erased b hb
    refine ⟨List.mem_append_left _ hmem, ?_⟩
    show Access.reset ∉ since (.erased b) (s.chip ++ [e])
    rw [since_concat_of_ne (herased b)]
    simp [hsince, hreset.symm]
  rejected b hb := by
    show Access.quarantined b ∉ s.chip ++ [e]
    simp [h.rejected b hb, (hquarantined b).symm]
  programmed b hb row data hmem := by
    change Access.program row data ∈ since (.erased b) (s.chip ++ [e]) at hmem
    rw [since_concat_of_ne (herased b)] at hmem
    refine h.programmed b hb row data ?_
    simpa [(hprogram row data).symm] using hmem

/-- The tables of a state that is not programming do not depend on its phase. -/
theorem Tables.of_eq {t : Driver} (h : Tables s) (hphase : s.phase ≠ .program)
    (hchip : t.chip = s.chip) (herased : t.erased = s.erased) (hrejected : t.rejected = s.rejected)
    (hnext : t.next_page = s.next_page) : Tables t where
  disciplined := hchip ▸ h.disciplined
  erased := by
    rw [hchip, herased]
    exact h.erased
  rejected := by
    rw [hchip, hrejected]
    exact h.rejected
  programmed b hb row data hmem := by
    rw [herased] at hb
    rw [hchip] at hmem
    rw [hnext]
    intro hblock
    exact Or.inl ((h.programmed b hb row data hmem hblock).resolve_right fun hp => hphase hp.1)

theorem Tables.reject (h : Tables s) : Tables s.reject := by
  unfold Driver.reject
  split_ifs with hblock
  · have hne : ∀ b, Access.quarantined s.block ≠ .erased b := fun b => by simp
    refine ⟨h.disciplined.concat trivial, fun b hb => ?_, fun b hb => ?_,
      fun b hb row data hmem => ?_⟩
    · obtain ⟨hmem, hsince⟩ := h.erased b hb
      refine ⟨List.mem_append_left _ hmem, ?_⟩
      show Access.reset ∉ since (.erased b) (s.chip ++ [Access.quarantined s.block])
      rw [since_concat_of_ne (hne b)]
      simp [hsince]
    · have hb' : b ≠ s.block := by
        rintro rfl
        simp at hb
      have hold : s.rejected b = false := by simpa [hb'] using hb
      show Access.quarantined b ∉ s.chip ++ [Access.quarantined s.block]
      simp [h.rejected b hold, hb']
    · refine h.programmed b hb row data ?_
      change Access.program row data ∈
        since (.erased b) (s.chip ++ [Access.quarantined s.block]) at hmem
      rw [since_concat_of_ne (hne b)] at hmem
      simpa using hmem
  · exact h

theorem Tables.programmable (h : Tables s) (hprobe : probe s.block <:+ s.chip)
    (hphase : s.phase ≠ .program) (herased : s.erased s.block = true)
    (hnext : s.next_page s.block ≤ s.row % 64) (hrejected : s.rejected s.block = false) :
    Programmable s.chip s.row := by
  have hrow := s.row_div
  constructor <;> rw [hrow]
  · exact hprobe
  · exact (h.erased _ herased).1
  · exact (h.erased _ herased).2
  · exact h.rejected _ hrejected
  · exact fun row data hmem hblock => h.before_row hphase herased hnext hmem hblock

theorem Tables.program (h : Tables s) (hrow : Programmable s.chip s.row)
    (hphase : s.phase ≠ .program) (data : List UInt8) (tick : UInt32) :
    Tables { s.access (.program s.row data) with started := tick, phase := .program } where
  disciplined := h.disciplined.concat hrow
  erased b hb := by
    obtain ⟨hmem, hsince⟩ := h.erased b hb
    refine ⟨List.mem_append_left _ hmem, ?_⟩
    show Access.reset ∉ since (.erased b) (s.chip ++ [Access.program s.row data])
    rw [since_concat_of_ne (by simp)]
    simp [hsince]
  rejected b hb := by
    show Access.quarantined b ∉ s.chip ++ [Access.program s.row data]
    simp [h.rejected b hb]
  programmed b hb row data' hmem hblock := by
    change Access.program row data' ∈
      since (.erased b) (s.chip ++ [Access.program s.row data]) at hmem
    rw [since_concat_of_ne (by simp), List.mem_append, List.mem_singleton] at hmem
    rcases hmem with hmem | heq
    · exact Or.inl ((h.programmed b hb row data' hmem hblock).resolve_right fun hp => hphase hp.1)
    · exact Or.inr ⟨rfl, (Access.program.inj heq).1⟩

/-! ## A call keeps them -/

/-- After an error no request is carried on. -/
theorem Keeps.failed (h : Keeps s) {t : Driver} (ht : Tables t) (hphase : t.phase = s.phase)
    (hop : t.operation = s.operation) (herror : t.health.error ≠ 0) : Keeps t where
  toTables := ht
  reading := by rw [hphase, hop]; exact h.reading
  programming := by rw [hphase, hop]; exact h.programming
  erasing := by rw [hphase, hop]; exact h.erasing
  aim h0 := absurd h0 herror
  pending h0 := absurd h0 herror

theorem reject_phase (s : Driver) : s.reject.phase = s.phase := by
  unfold reject
  split_ifs <;> rfl

theorem reject_operation (s : Driver) : s.reject.operation = s.operation := by
  unfold reject
  split_ifs <;> rfl

theorem Keeps.quarantine (h : Keeps s) {t : Driver} (ht : Tables t) (hphase : t.phase = s.phase)
    (hop : t.operation = s.operation) {error : ℤ} (herror : error ≠ 0) :
    Keeps (t.quarantine error) :=
  have hr : Tables t.reject := ht.reject
  have hq : Tables (t.quarantine error) := ⟨hr.1, hr.2, hr.3, hr.4⟩
  h.failed hq (t.reject_phase.trans hphase) (t.reject_operation.trans hop) herror

theorem Tables.marker (h : Tables s) (value : UInt8) : Tables (s.access (.marker value)) :=
  h.access trivial (by simp) (by simp) (by simp) (by simp)

theorem Tables.page (h : Keeps s) (herror : s.health.error = 0) (hphase : s.phase = .read)
    (data : Page) : Tables (s.access (.page data)) := by
  have hpending := h.pending herror
  rw [Driver.pending, hphase] at hpending
  refine h.toTables.access ⟨s.row, ?_⟩ (by simp) (by simp) (by simp) (by simp)
  rw [row_div]
  exact hpending

/-- The second marker completes the probe. -/
theorem Keeps.probed (h : Keeps s) (herror : s.health.error = 0) (hphase : s.phase = .mark1) :
    probe s.block <:+ s.chip ++ [Access.marker 0xFF] := by
  have hpending := h.pending herror
  rw [Driver.pending, hphase] at hpending
  obtain ⟨base, hbase⟩ := hpending
  exact ⟨base, by rw [← hbase, List.append_assoc]; rfl⟩

theorem Keeps.mark1 (h : Keeps s) (herror : s.health.error = 0) (hphase : s.phase = .mark0)
    (tick : UInt32) : Keeps { (s.access (.marker 0xFF)).readStart (s.block * 64 + 1) 2048 tick with
      phase := .mark1 } := by
  have hp : s.phase ≠ .program := by simp [hphase]
  have hread : Tables ((s.access (.marker 0xFF)).access (.read (s.block * 64 + 1) 2048)) :=
    (h.marker 0xFF).access (Or.inl rfl) (by simp) (by simp) (by simp) (by simp)
  refine ⟨hread.of_eq hp rfl rfl rfl rfl, by simp, by simp, by simp, fun _ _ hop => ?_, fun _ => ?_⟩
  · obtain ⟨herased, hnext, hrejected⟩ := h.aim herror (by simp [hphase]) hop
    exact ⟨herased, hnext, fun _ => hrejected hp⟩
  · have hpending := h.pending herror
    rw [Driver.pending, hphase] at hpending
    obtain ⟨base, hbase⟩ := hpending
    refine ⟨base, ?_⟩
    show base ++ _ = s.chip ++ [Access.marker 0xFF] ++ [Access.read (s.block * 64 + 1) 2048]
    rw [← hbase]
    simp only [Driver.pending, List.append_assoc]
    rfl

/-- The page operation comes right behind the probe. -/
theorem Keeps.issue (h : Keeps s) (herror : s.health.error = 0) (hphase : s.phase = .mark1)
    (tick : UInt32) : Keeps ((s.access (.marker 0xFF)).issue tick) := by
  have hp : s.phase ≠ .program := by simp [hphase]
  have hprobe : probe (s.row / 64) <:+ (s.access (.marker 0xFF)).chip := by
    rw [row_div]
    exact h.probed herror hphase
  have ht : Tables (s.access (.marker 0xFF)) := h.marker 0xFF
  unfold Driver.issue
  cases hop : s.operation with
  | read =>
    have hread : Tables ((s.access (.marker 0xFF)).access (.read s.row 0)) :=
      ht.access (Or.inr ⟨rfl, hprobe⟩) (by simp) (by simp) (by simp) (by simp)
    have hop' : (s.access (.marker 0xFF)).operation = .read := hop
    simp only [hop']
    refine ⟨hread.of_eq hp rfl rfl rfl rfl, fun _ => hop, by simp, by simp, ?_, fun _ => ?_⟩
    · intro _ _ h'
      exact absurd (hop.symm.trans h') (by simp)
    · obtain ⟨base, hbase⟩ := h.probed herror hphase
      refine ⟨base, ?_⟩
      show base ++ (probe s.block ++ [Access.read s.row 0]) =
        s.chip ++ [Access.marker 0xFF] ++ [Access.read s.row 0]
      rw [← hbase, List.append_assoc]
  | program =>
    obtain ⟨herased, hnext, hrejected⟩ := h.aim herror (by simp [hphase]) hop
    have hrow := ht.programmable (h.probed herror hphase) hp herased hnext (hrejected hp)
    have hop' : (s.access (.marker 0xFF)).operation = .program := hop
    simp only [hop']
    exact ⟨ht.program hrow hp _ _, by simp, fun _ => hop, by simp,
      fun _ _ _ => ⟨herased, hnext, by simp⟩, fun _ => List.nil_suffix⟩
  | erase =>
    have herase : Tables ((s.access (.marker 0xFF)).access (.erase s.row)) :=
      ht.access hprobe (by simp) (by simp) (by simp) (by simp)
    have hop' : (s.access (.marker 0xFF)).operation = .erase := hop
    simp only [hop']
    refine ⟨herase.of_eq hp rfl rfl rfl rfl, by simp, by simp, fun _ => hop, ?_,
      fun _ => List.nil_suffix⟩
    intro _ _ h'
    exact absurd (hop.symm.trans h') (by simp)

theorem Keeps.erase_done (h : Keeps s) (hphase : s.phase = .erase) :
    Keeps { s.access (.erased s.block) with
      erased := Function.update s.erased s.block true
      next_page := Function.update s.next_page s.block 0
      phase := .idle } := by
  have hp : s.phase ≠ .program := by simp [hphase]
  refine ⟨⟨h.disciplined.concat trivial, fun b hb => ?_, fun b hb => ?_,
    fun b hb row data hmem hrow => ?_⟩, by simp, by simp, by simp, by simp,
    fun _ => List.nil_suffix⟩
  · change Function.update s.erased s.block true b = true at hb
    show Access.erased b ∈ s.chip ++ [Access.erased s.block] ∧
      Access.reset ∉ since (.erased b) (s.chip ++ [Access.erased s.block])
    by_cases hblock : b = s.block
    · subst hblock
      simp
    · rw [Function.update_of_ne hblock] at hb
      obtain ⟨hmem, hsince⟩ := h.toTables.erased b hb
      rw [since_concat_of_ne (by simp [Ne.symm hblock])]
      simp [hmem, hsince]
  · show Access.quarantined b ∉ s.chip ++ [Access.erased s.block]
    simp [h.rejected b hb]
  · change Access.program row data ∈ since (.erased b) (s.chip ++ [Access.erased s.block]) at hmem
    change Function.update s.erased s.block true b = true at hb
    by_cases hblock : b = s.block
    · subst hblock
      simp at hmem
    · rw [since_concat_of_ne (by simp [Ne.symm hblock])] at hmem
      rw [Function.update_of_ne hblock] at hb
      have hmem' : Access.program row data ∈ since (.erased b) s.chip := by simpa using hmem
      left
      show row % 64 < Function.update s.next_page s.block 0 b
      rw [Function.update_of_ne hblock]
      exact (h.programmed b hb row data hmem' hrow).resolve_right fun h' => hp h'.1

theorem Keeps.program_done (h : Keeps s) (herror : s.health.error = 0)
    (hphase : s.phase = .program) : Keeps { s with
      next_page := Function.update s.next_page s.block (s.row % 64 + 1)
      phase := .idle } := by
  obtain ⟨-, hnext, -⟩ := h.aim herror (by simp [hphase]) (h.programming hphase)
  refine ⟨⟨h.disciplined, h.toTables.erased, h.rejected, fun b hb row data hmem hrow => ?_⟩,
    by simp, by simp, by simp, by simp, fun _ => List.nil_suffix⟩
  left
  show row % 64 < Function.update s.next_page s.block (s.row % 64 + 1) b
  by_cases hblock : b = s.block
  · rw [hblock, Function.update_self]
    rcases h.toTables.programmed b hb row data hmem hrow with hlt | ⟨-, heq⟩
    · rw [hblock] at hlt
      omega
    · rw [heq]
      exact Nat.lt_succ_self _
  · rw [Function.update_of_ne hblock]
    refine (h.toTables.programmed b hb row data hmem hrow).resolve_right fun h' => hblock ?_
    rw [← hrow, h'.2, row_div]

theorem Keeps.state (h : Keeps s) (i : Poll) : Keeps (s.state i).1 := by
  generalize hr : s.state i = r
  have hturn := s.turn_state i
  rw [hr] at hturn
  cases hturn with
  | rest => exact h
  | late => exact h.failed ⟨h.1.1, h.1.2, h.1.3, h.1.4⟩ rfl rfl (by simp [setError])
  | bad => exact h.quarantine (h.marker _) rfl rfl (by decide)
  | mark1 herror hphase => exact h.mark1 herror hphase _
  | issue herror hphase => exact h.issue herror hphase _
  | corrupt herror hphase =>
    have hp := Tables.page h herror hphase i.page
    exact h.failed ⟨hp.1, hp.2, hp.3, hp.4⟩ rfl rfl (by simp [setError])
  | @next page bits herror hphase _ _ t ht =>
    have hread := h.reading hphase
    have hp := Tables.page h herror hphase i.page
    have hcopy : Tables t := hp.of_eq (by simp [access, hphase]) (by rw [ht]; rfl) (by rw [ht]; rfl)
      (by rw [ht]; rfl) (by rw [ht]; rfl)
    have hphase' : t.phase = .read := by rw [ht]; exact hphase
    have hop : t.operation = .read := by rw [ht]; exact hread
    have hmark : Tables (t.access (.read (t.block * 64) 2048)) :=
      hcopy.access (Or.inl rfl) (by simp) (by simp) (by simp) (by simp)
    refine ⟨hmark.of_eq (by simp [access, hphase']) rfl rfl rfl rfl, by simp, by simp, by simp, ?_,
      fun _ => ⟨t.chip, rfl⟩⟩
    intro _ _ h'
    exact absurd (hop.symm.trans h') (by simp)
  | rejected herror hphase =>
    have hp := Tables.page h herror hphase i.page
    exact h.failed (hp.of_eq (by simp [access, hphase]) rfl rfl rfl rfl) rfl rfl
      (by simp [setError])
  | last herror hphase =>
    have hp := Tables.page h herror hphase i.page
    exact ⟨hp.of_eq (by simp [access, hphase]) rfl rfl rfl rfl, by simp, by simp, by simp, by simp,
      fun _ => List.nil_suffix⟩
  | failed => exact h.quarantine h.toTables rfl rfl (by decide)
  | erased _ hphase => exact h.erase_done hphase
  | programmed herror hphase => exact h.program_done herror hphase

/-- Initialisation forgets what was erased. -/
theorem Tables.init (h : Tables s) {t : Driver} (hchip : t.chip = s.chip ++ [Access.reset])
    (herased : t.erased = fun _ => false) (hrejected : t.rejected = s.rejected) : Tables t where
  disciplined := by
    rw [hchip]
    exact h.disciplined.concat trivial
  erased b hb := by simp [herased] at hb
  rejected b hb := by
    rw [hrejected] at hb
    rw [hchip]
    simp [h.rejected b hb]
  programmed b hb := by simp [herased] at hb

theorem Keeps.init (h : Keeps s) (i : Startup) : Keeps (s.init i).1 := by
  have hidle : ∀ t : Driver, t.chip = s.chip ++ [Access.reset] → (t.erased = fun _ => false) →
      t.rejected = s.rejected → t.phase = .idle → Keeps t := by
    intro t hchip herased hrejected hphase
    refine ⟨h.toTables.init hchip herased hrejected, ?_, ?_, ?_, ?_, fun _ => ?_⟩
    any_goals simp [hphase]
    simp [Driver.pending, hphase]
  unfold Driver.init
  dsimp only
  split_ifs <;> exact hidle _ rfl rfl rfl rfl

theorem Keeps.submit (h : Keeps s) (address length : ℕ) (op : Operation) (tick : UInt32) :
    Keeps (s.submit address length op tick).1 := by
  generalize hr : s.submit address length op tick = r
  have hsubmit := s.submits_submit address length op tick
  rw [hr] at hsubmit
  cases hsubmit with
  | refused => exact h
  | failed herror => exact h.failed ⟨h.1.1, h.1.2, h.1.3, h.1.4⟩ rfl rfl (by simpa [setError])
  | accepted hphase _ hrejected hprogram =>
    have hmark : Tables (s.access (.read (address / (64 * 2048) * 64) 2048)) :=
      h.toTables.access (Or.inl rfl) (by simp) (by simp) (by simp) (by simp)
    refine ⟨hmark.of_eq (by simp [access, hphase]) rfl rfl rfl rfl, by simp, by simp, by simp,
      fun _ _ hop => ?_, fun _ => ⟨s.chip, rfl⟩⟩
    obtain ⟨herased, hnext⟩ := hprogram hop
    exact ⟨herased, hnext, fun _ => hrejected⟩

end Driver
end Atoman.Nand
