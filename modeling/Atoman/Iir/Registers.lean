import Atoman.Iir.Core
import Mathlib.Data.List.GetD

/-!
# The register peripheral of the 3P3Z filter

A write is committed once its address and its data were taken, in either order. A start takes the
sample one clock later and reports it another clock later; the response to the write keeps the next
commit away until then. So the peripheral computes what a filter computes that takes whole writes,
one after the other.
-/

namespace Atoman.Iir

/-- A write with its address, data and strobes. -/
structure Write where
  awaddr : BitVec 8
  wdata : BitVec 32
  wstrb : BitVec 4

/-- `apply_wstrb` -/
def applyWstrb (current_value write_value : BitVec 32) (byte_strobe : BitVec 4) : BitVec 32 :=
  let byte (k : ℕ) : BitVec 8 :=
    (if byte_strobe.getLsbD k then write_value else current_value).extractLsb' (8 * k) 8
  byte 3 ++ byte 2 ++ byte 1 ++ byte 0

/-- Each byte is written or kept by its strobe. -/
theorem getLsbD_applyWstrb (current_value write_value : BitVec 32) (byte_strobe : BitVec 4)
    {i : ℕ} (hi : i < 32) : (applyWstrb current_value write_value byte_strobe).getLsbD i =
      (if byte_strobe.getLsbD (i / 8) then write_value else current_value).getLsbD i := by
  have hbyte (v : BitVec 32) {k : ℕ} (hk : i / 8 = k) :
      (v.extractLsb' (8 * k) 8).getLsbD (i - 8 * k) = v.getLsbD i := by
    rw [BitVec.getLsbD_extractLsb', decide_eq_true (show i - 8 * k < 8 by omega), Bool.true_and,
      Nat.add_sub_cancel' (by omega)]
  unfold applyWstrb
  simp only [BitVec.getLsbD_append]
  obtain hk | hk | hk | hk : i / 8 = 0 ∨ i / 8 = 1 ∨ i / 8 = 2 ∨ i / 8 = 3 := by omega
  · rw [if_pos (by omega), hk]
    exact hbyte _ hk
  · rw [if_neg (by omega), if_pos (by omega), hk]
    exact hbyte _ hk
  · rw [if_neg (by omega), if_neg (by omega), if_pos (by omega), hk, Nat.sub_sub]
    exact hbyte _ hk
  · rw [if_neg (by omega), if_neg (by omega), if_neg (by omega), hk, Nat.sub_sub, Nat.sub_sub]
    exact hbyte _ hk

namespace Write
variable (w : Write)

/-- `write_index` -/
def index : BitVec 6 := w.awaddr.extractLsb' 2 6

/-- `control_write_value` -/
def controlValue : BitVec 32 := applyWstrb 0 w.wdata w.wstrb

/-- The write sets this bit of the control register. -/
def sets (k : ℕ) : Bool := w.index == 0 && w.controlValue.getLsbD k

end Write

/-- `input_reg`, the coefficients and the limits. -/
structure Registers where
  input : BitVec 32
  parameters : Parameters
deriving DecidableEq

namespace Registers

def reset : Registers :=
  ⟨0, ⟨0x40000000, 0, 0, 0, 0, 0, 0, 0x80000000, 0x7FFFFFFF⟩⟩

/-- What a committed write makes of them. -/
def write (r : Registers) (w : Write) : Registers :=
  let new (current_value : BitVec 32) := applyWstrb current_value w.wdata w.wstrb
  let p := r.parameters
  match w.index with
  | 0x02 => { r with input := new r.input }
  | 0x04 => { r with parameters := { p with b0 := new p.b0 } }
  | 0x05 => { r with parameters := { p with b1 := new p.b1 } }
  | 0x06 => { r with parameters := { p with b2 := new p.b2 } }
  | 0x07 => { r with parameters := { p with b3 := new p.b3 } }
  | 0x08 => { r with parameters := { p with a1 := new p.a1 } }
  | 0x09 => { r with parameters := { p with a2 := new p.a2 } }
  | 0x0A => { r with parameters := { p with a3 := new p.a3 } }
  | 0x14 => { r with parameters := { p with limit_lower := new p.limit_lower } }
  | 0x15 => { r with parameters := { p with limit_upper := new p.limit_upper } }
  | _ => r

/-- The words of `register_read` that a write can change. -/
def registerRead (r : Registers) (register_index : BitVec 6) : Option (BitVec 32) :=
  match register_index with
  | 0x02 => some r.input
  | 0x04 => some r.parameters.b0
  | 0x05 => some r.parameters.b1
  | 0x06 => some r.parameters.b2
  | 0x07 => some r.parameters.b3
  | 0x08 => some r.parameters.a1
  | 0x09 => some r.parameters.a2
  | 0x0A => some r.parameters.a3
  | 0x14 => some r.parameters.limit_lower
  | 0x15 => some r.parameters.limit_upper
  | _ => none

/-- A write changes the word it addresses, in the bytes of its strobes, and no other. -/
theorem registerRead_write (r : Registers) (w : Write) (register_index : BitVec 6) :
    (r.write w).registerRead register_index =
      if register_index = w.index then
        (r.registerRead register_index).map fun current_value =>
          applyWstrb current_value w.wdata w.wstrb
      else r.registerRead register_index := by
  rw [write]
  split
  case h_11 =>
    split
    · next h =>
      subst h
      unfold registerRead
      split <;> first | contradiction | rfl
    · rfl
  all_goals
    next hindex =>
    rw [hindex]
    unfold registerRead
    split <;> simp_all

end Registers

/-! ## The peripheral -/

/-- What the AXI master drives in one clock. -/
structure Input where
  resetn : Bool
  awvalid : Bool
  awaddr : BitVec 8
  wvalid : Bool
  wdata : BitVec 32
  wstrb : BitVec 4
  bready : Bool

structure State where
  registers : Registers
  start_pulse : Bool
  clear_state_pulse : Bool
  done_sticky : Bool
  hold : Write
  aw_pending : Bool
  w_pending : Bool
  bvalid : Bool
  core : Core

namespace State
variable (s : State) (i : Input)

def reset : State := ⟨.reset, false, false, false, ⟨0, 0, 0⟩, false, false, false, .reset⟩

def writeCommit : Bool := s.aw_pending && s.w_pending && !s.bvalid

def awready : Bool := !s.aw_pending && !s.bvalid

def wready : Bool := !s.w_pending && !s.bvalid

/-- The core is always ready and never busy. -/
def statusValue : BitVec 32 :=
  (0 : BitVec 28) ++ BitVec.ofBool true ++ BitVec.ofBool s.core.saturated ++
    BitVec.ofBool s.done_sticky ++ BitVec.ofBool false

/-- One clock out of reset. -/
def clock : State :=
  let commit := s.writeCommit
  let takesAw := s.awready && i.awvalid
  let takesW := s.wready && i.wvalid
  { registers := if commit then s.registers.write s.hold else s.registers
    start_pulse := commit && s.hold.sets 0
    clear_state_pulse := commit && s.hold.sets 1
    done_sticky :=
      if commit && (s.hold.sets 0 || s.hold.sets 1 || s.hold.sets 2) then false
      else s.core.done || s.done_sticky
    hold :=
      { awaddr := if takesAw then i.awaddr else s.hold.awaddr
        wdata := if takesW then i.wdata else s.hold.wdata
        wstrb := if takesW then i.wstrb else s.hold.wstrb }
    aw_pending := !commit && (takesAw || s.aw_pending)
    w_pending := !commit && (takesW || s.w_pending)
    bvalid := commit || (s.bvalid && !i.bready)
    core := s.core.clock s.start_pulse s.clear_state_pulse s.registers.input
      s.registers.parameters }

/-- The sample the core takes with this clock. -/
def due : List (BitVec 32) :=
  if s.start_pulse && !s.clear_state_pulse then
    [limitedSample s.registers.parameters s.core.history s.registers.input]
  else []

/-- The address that waits for its data, or for its commit. -/
def waitingAw : List (BitVec 8) := if s.aw_pending then [s.hold.awaddr] else []

/-- The data that wait for their address, or for their commit. -/
def waitingW : List (BitVec 32 × BitVec 4) :=
  if s.w_pending then [(s.hold.wdata, s.hold.wstrb)] else []

end State

/-- The peripheral, what it has accepted since reset and the samples its core has taken. -/
structure Session where
  state : State
  /-- the accepted addresses -/
  aws : List (BitVec 8)
  /-- the accepted data -/
  ws : List (BitVec 32 × BitVec 4)
  /-- the writes committed -/
  writes : List Write
  /-- the outputs of the core -/
  taken : List (BitVec 32)

namespace Session
variable (s : Session) (i : Input)

def reset : Session := ⟨.reset, [], [], [], []⟩

def clock : Session :=
  if i.resetn then
    { state := s.state.clock i
      aws := s.aws ++ if s.state.awready && i.awvalid then [i.awaddr] else []
      ws := s.ws ++ if s.state.wready && i.wvalid then [(i.wdata, i.wstrb)] else []
      writes := s.writes ++ if s.state.writeCommit then [s.state.hold] else []
      taken := s.taken ++ s.state.due }
  else reset

end Session

/-! ## The filter -/

/-- An input and its output. -/
abbrev Sample := ℤ × ℤ

/-- A filter that takes a write as a whole. -/
structure Filter where
  registers : Registers
  /-- the samples since the last clear, the latest first -/
  past : List Sample
  /-- all outputs, the latest last -/
  outputs : List ℤ
  done : Bool

namespace Filter
variable (f : Filter) (w : Write)

def reset : Filter := ⟨.reset, [], [], false⟩

/-- The input `k` samples ago. -/
def x (k : ℕ) : ℤ := (f.past.getD (k - 1) (0, 0)).1

/-- The output `k` samples ago. -/
def y (k : ℕ) : ℤ := (f.past.getD (k - 1) (0, 0)).2

/-- `b0*x + b1*x1 + b2*x2 + b3*x3 - a1*y1 - a2*y2 - a3*y3` -/
def accumulator : ℤ :=
  let p := f.registers.parameters
  p.b0.toInt * f.registers.input.toInt + p.b1.toInt * f.x 1 + p.b2.toInt * f.x 2 +
    p.b3.toInt * f.x 3 - p.a1.toInt * f.y 1 - p.a2.toInt * f.y 2 - p.a3.toInt * f.y 3

/-- The next output. -/
def output : ℤ :=
  clamp f.registers.parameters.limit_lower.toInt f.registers.parameters.limit_upper.toInt
    (f.accumulator / 2 ^ 30)

/-- One sample. -/
def sample : Filter :=
  { f with
    past := (f.registers.input.toInt, f.output) :: f.past
    outputs := f.outputs ++ [f.output]
    done := true }

/-- One write: a clear, a sample, an acknowledgement or a register. -/
def write : Filter :=
  if w.sets 1 then { f with past := [], done := false }
  else if w.sets 0 then f.sample
  else if w.sets 2 then { f with done := false }
  else { f with registers := f.registers.write w }

end Filter

/-! ## The core shows the filter's past -/

/-- The registers of the core hold the last three samples, the last output and their number. -/
structure Core.Shows (c : Core) (f : Filter) : Prop where
  x1 : c.history.x1.toInt = f.x 1
  x2 : c.history.x2.toInt = f.x 2
  x3 : c.history.x3.toInt = f.x 3
  y1 : c.history.y1.toInt = f.y 1
  y2 : c.history.y2.toInt = f.y 2
  y3 : c.history.y3.toInt = f.y 3
  sample_out : c.sample_out.toInt = f.y 1
  sample_count : c.sample_count.toNat = f.past.length % 2 ^ 32

namespace Core.Shows
variable {c : Core} {f g : Filter}

theorem reset (h : f.past = []) : Core.reset.Shows f := by
  refine ⟨?_, ?_, ?_, ?_, ?_, ?_, ?_, ?_⟩ <;> simp [Core.reset, Filter.x, Filter.y, h]

/-- Only the past counts. -/
theorem congr (h : c.Shows f) (hpast : g.past = f.past) : c.Shows g := by
  have hx (k : ℕ) : g.x k = f.x k := by rw [Filter.x, Filter.x, hpast]
  have hy (k : ℕ) : g.y k = f.y k := by rw [Filter.y, Filter.y, hpast]
  refine ⟨?_, ?_, ?_, ?_, ?_, ?_, ?_, ?_⟩
  · rw [hx, h.x1]
  · rw [hx, h.x2]
  · rw [hx, h.x3]
  · rw [hy, h.y1]
  · rw [hy, h.y2]
  · rw [hy, h.y3]
  · rw [hy, h.sample_out]
  · rw [hpast, h.sample_count]

/-- The limited sample is the output of the filter. -/
theorem limitedSample (h : c.Shows f) :
    (limitedSample f.registers.parameters c.history f.registers.input).toInt = f.output := by
  rw [toInt_limitedSample, recurrence, h.x1, h.x2, h.x3, h.y1, h.y2, h.y3]
  rfl

theorem sample (h : c.Shows f) :
    (c.clock true false f.registers.input f.registers.parameters).Shows f.sample := by
  have hlimited := h.limitedSample
  have houtput : f.sample.y 1 = f.output := rfl
  rw [Core.clock, if_neg (by decide), if_pos rfl]
  generalize Iir.limitedSample f.registers.parameters c.history f.registers.input = out at hlimited
  rw [← houtput] at hlimited
  refine ⟨rfl, h.x1, h.x2, hlimited, h.y1, h.y2, hlimited, ?_⟩
  show (c.sample_count + 1).toNat = (f.past.length + 1) % 2 ^ 32
  rw [BitVec.toNat_add, h.sample_count]
  simp

/-- A clock without a pulse. -/
theorem idle (h : c.Shows f) (x : BitVec 32) (p : Parameters) :
    (c.clock false false x p).Shows f :=
  ⟨h.x1, h.x2, h.x3, h.y1, h.y2, h.y3, h.sample_out, h.sample_count⟩

end Core.Shows

/-! ## One clock -/

theorem Registers.write_of_sets {r : Registers} {w : Write} {k : ℕ} (h : w.sets k = true) :
    r.write w = r := by
  have hindex : w.index = 0 := by
    rw [Write.sets, Bool.and_eq_true, beq_iff_eq] at h
    exact h.1
  rw [Registers.write, hindex]
  rfl

theorem Filter.registers_write (f : Filter) (w : Write) :
    (f.write w).registers = f.registers.write w := by
  rw [Filter.write]
  split
  · next h => exact (Registers.write_of_sets h).symm
  split
  · next h => exact (Registers.write_of_sets h).symm
  split
  · next h => exact (Registers.write_of_sets h).symm
  · rfl

/-- How far the last write has come; `taken` are the outputs of the core. -/
inductive Phase (s : State) (taken : List ℤ) (f : Filter) : Prop
  /-- nothing is on its way -/
  | settled (start : s.start_pulse = false) (clear : s.clear_state_pulse = false)
      (core_done : s.core.done = false) (done : s.done_sticky = f.done) (shows : s.core.Shows f)
      (outputs : taken = f.outputs)
  /-- the core takes a sample with the next clock; no commit can come with it -/
  | starting (g : Filter) (start : s.start_pulse = true) (clear : s.clear_state_pulse = false)
      (core_done : s.core.done = false) (done : s.done_sticky = false) (bvalid : s.bvalid = true)
      (aw_pending : s.aw_pending = false) (w_pending : s.w_pending = false)
      (shows : s.core.Shows g) (registers : s.registers = g.registers) (sample : f = g.sample)
      (outputs : taken = g.outputs)
  /-- the core has taken it; no commit can come with the next clock either -/
  | taking (start : s.start_pulse = false) (clear : s.clear_state_pulse = false)
      (core_done : s.core.done = true) (done : s.done_sticky = false)
      (aw_pending : s.aw_pending = false) (w_pending : s.w_pending = false)
      (reported : f.done = true) (shows : s.core.Shows f) (outputs : taken = f.outputs)
  /-- the core is cleared with the next clock -/
  | clearing (clear : s.clear_state_pulse = true) (core_done : s.core.done = false)
      (done : s.done_sticky = false) (bvalid : s.bvalid = true)
      (aw_pending : s.aw_pending = false) (w_pending : s.w_pending = false)
      (past : f.past = []) (cleared : f.done = false) (outputs : taken = f.outputs)

/-- The output the core adds with the next clock. -/
def State.dueOutputs (s : State) : List ℤ := s.due.map BitVec.toInt

namespace Phase
variable {s : State} {taken : List ℤ} {f : Filter}

/-- The outputs of the core and the one that is due are those of the filter. -/
theorem outputs_eq (h : Phase s taken f) : taken ++ s.dueOutputs = f.outputs := by
  have hnone (hpulse : (s.start_pulse && !s.clear_state_pulse) = false) : s.dueOutputs = [] := by
    rw [State.dueOutputs, State.due, hpulse]
    rfl
  cases h with
  | settled start _ _ _ _ outputs | taking start _ _ _ _ _ _ _ outputs =>
    rw [hnone (by rw [start]; rfl), outputs, List.append_nil]
  | clearing clear _ _ _ _ _ _ _ outputs =>
    rw [hnone (by rw [clear, Bool.not_true, Bool.and_false]), outputs, List.append_nil]
  | starting g start clear _ _ _ _ _ shows registers sample outputs =>
    have hdue : s.dueOutputs = [g.output] := by
      rw [State.dueOutputs, State.due, start, clear, registers, ← shows.limitedSample]
      rfl
    rw [hdue, outputs, sample]
    rfl

/-- A commit finds the filter settled. -/
theorem of_commit (h : Phase s taken f) (hcommit : s.writeCommit = true) :
    s.start_pulse = false ∧ s.clear_state_pulse = false ∧ s.core.done = false ∧
      s.done_sticky = f.done ∧ s.core.Shows f := by
  rw [State.writeCommit, Bool.and_eq_true, Bool.and_eq_true] at hcommit
  obtain ⟨⟨haw, -⟩, -⟩ := hcommit
  cases h with
  | settled start clear core_done done shows => exact ⟨start, clear, core_done, done, shows⟩
  | starting _ _ _ _ _ _ aw_pending => exact nomatch haw.symm.trans aw_pending
  | taking _ _ _ _ aw_pending => exact nomatch haw.symm.trans aw_pending
  | clearing _ _ _ _ aw_pending => exact nomatch haw.symm.trans aw_pending

/-- A clock with a commit. -/
theorem commit (h : Phase s taken f) (hregisters : s.registers = f.registers)
    (hcommit : s.writeCommit = true) (i : Input) :
    Phase (s.clock i) (taken ++ s.dueOutputs) (f.write s.hold) := by
  rw [h.outputs_eq]
  obtain ⟨hstart, hclear, hdone, hsticky, hshows⟩ := h.of_commit hcommit
  have hcore : (s.clock i).core = s.core.clock false false s.registers.input
      s.registers.parameters := by
    simp only [State.clock, hstart, hclear]
  have hshows' : (s.clock i).core.Shows f := by
    rw [hcore]
    exact hshows.idle _ _
  have hcoredone : (s.clock i).core.done = false := by rw [hcore]; rfl
  have hpending : (s.clock i).bvalid = true ∧ (s.clock i).aw_pending = false ∧
      (s.clock i).w_pending = false := by simp [State.clock, hcommit]
  obtain ⟨hbvalid, haw, hw⟩ := hpending
  by_cases hclears : s.hold.sets 1 = true
  · have hwrite : f.write s.hold = { f with past := [], done := false } := if_pos hclears
    have hclear' : (s.clock i).clear_state_pulse = true := by simp [State.clock, hcommit, hclears]
    have hsticky' : (s.clock i).done_sticky = false := by simp [State.clock, hcommit, hclears]
    rw [hwrite]
    exact .clearing hclear' hcoredone hsticky' hbvalid haw hw rfl rfl rfl
  have hclear' : (s.clock i).clear_state_pulse = false := by simp [State.clock, hclears]
  by_cases hstarts : s.hold.sets 0 = true
  · have hwrite : f.write s.hold = f.sample := by
      rw [Filter.write, if_neg hclears, if_pos hstarts]
    have hstart' : (s.clock i).start_pulse = true := by simp [State.clock, hcommit, hstarts]
    have hsticky' : (s.clock i).done_sticky = false := by simp [State.clock, hcommit, hstarts]
    have hsame : (s.clock i).registers = f.registers := by
      rw [← hregisters, ← Registers.write_of_sets (r := s.registers) hstarts]
      simp only [State.clock, hcommit, if_true, Registers.write_of_sets hstarts]
    rw [hwrite]
    exact .starting f hstart' hclear' hcoredone hsticky' hbvalid haw hw hshows' hsame rfl rfl
  have hstart' : (s.clock i).start_pulse = false := by simp [State.clock, hstarts]
  rw [Filter.write, if_neg hclears, if_neg hstarts]
  by_cases hacks : s.hold.sets 2 = true
  · have hsticky' : (s.clock i).done_sticky = false := by simp [State.clock, hcommit, hacks]
    rw [if_pos hacks]
    exact .settled hstart' hclear' hcoredone hsticky' (hshows'.congr rfl) rfl
  · have hsticky' : (s.clock i).done_sticky = f.done := by
      simp [State.clock, hclears, hstarts, hacks, hdone, hsticky]
    rw [if_neg hacks]
    exact .settled hstart' hclear' hcoredone hsticky' (hshows'.congr rfl) rfl

/-- A clock without a commit. -/
theorem clock (h : Phase s taken f) (hcommit : s.writeCommit = false) (i : Input) :
    Phase (s.clock i) (taken ++ s.dueOutputs) f := by
  rw [h.outputs_eq]
  have hpulses : (s.clock i).start_pulse = false ∧ (s.clock i).clear_state_pulse = false := by
    simp [State.clock, hcommit]
  have hsticky : (s.clock i).done_sticky = (s.core.done || s.done_sticky) := by
    simp [State.clock, hcommit]
  have hcore : (s.clock i).core = s.core.clock s.start_pulse s.clear_state_pulse s.registers.input
    s.registers.parameters := rfl
  cases h with
  | settled start clear core_done done shows =>
    rw [start, clear] at hcore
    refine .settled hpulses.1 hpulses.2 ?_ ?_ ?_ rfl
    · rw [hcore]; rfl
    · rw [hsticky, core_done, done, Bool.false_or]
    · rw [hcore]
      exact shows.idle _ _
  | starting g start clear core_done done bvalid aw_pending w_pending shows registers sample =>
    rw [start, clear, registers] at hcore
    refine .taking hpulses.1 hpulses.2 ?_ ?_ ?_ ?_ ?_ ?_ rfl
    · rw [hcore]; rfl
    · rw [hsticky, core_done, done]; rfl
    · simp [State.clock, State.awready, aw_pending, bvalid]
    · simp [State.clock, State.wready, w_pending, bvalid]
    · rw [sample]; rfl
    · rw [hcore, sample]
      exact shows.sample
  | taking start clear core_done done aw_pending w_pending reported shows =>
    rw [start, clear] at hcore
    refine .settled hpulses.1 hpulses.2 ?_ ?_ ?_ rfl
    · rw [hcore]; rfl
    · rw [hsticky, core_done, reported]; rfl
    · rw [hcore]
      exact shows.idle _ _
  | clearing clear core_done done bvalid aw_pending w_pending past cleared =>
    have hreset : (s.clock i).core = Core.reset := by rw [hcore, clear]; rfl
    refine .settled hpulses.1 hpulses.2 ?_ ?_ ?_ rfl
    · rw [hreset]; rfl
    · rw [hsticky, core_done, done, cleared]; rfl
    · rw [hreset]
      exact .reset past

end Phase

/-! ## Every session -/

namespace Session
variable {s : Session}

/-- The filter after the committed writes. -/
def filter (s : Session) : Filter := s.writes.foldl Filter.write .reset

/-- What can be relied on. -/
structure Refines (s : Session) : Prop where
  /-- the committed writes are the accepted addresses and data in order, but for those that wait -/
  aws : s.aws = s.writes.map Write.awaddr ++ s.state.waitingAw
  ws : s.ws = s.writes.map (fun w => (w.wdata, w.wstrb)) ++ s.state.waitingW
  /-- a write with its address and its data is committed with the next clock -/
  commits : s.state.aw_pending = true → s.state.w_pending = true → s.state.writeCommit = true
  registers : s.state.registers = s.filter.registers
  /-- the core has taken the samples of the filter, but for the one it takes with the next clock -/
  samples : s.taken.map BitVec.toInt ++ s.state.dueOutputs = s.filter.outputs
  /-- no pulse pending, the core shows the history and the last output of the filter -/
  history : s.state.start_pulse = false → s.state.clear_state_pulse = false →
    s.state.core.Shows s.filter
  /-- with the core done, the next clock reports it; else the status is that of the filter -/
  reported : s.state.core.done = true → ∀ i, i.resetn = true →
    (s.clock i).state.statusValue.getLsbD 1 = true
  status : s.state.start_pulse = false → s.state.core.done = false →
    s.state.statusValue.getLsbD 1 = s.filter.done

theorem statusValue_done (s : State) : s.statusValue.getLsbD 1 = s.done_sticky := by
  cases hcore : s.core.saturated <;> cases hdone : s.done_sticky <;>
    simp [State.statusValue, hcore, hdone]

/-- The invariant. -/
structure Holds (s : Session) : Prop where
  aws : s.aws = s.writes.map Write.awaddr ++ s.state.waitingAw
  ws : s.ws = s.writes.map (fun w => (w.wdata, w.wstrb)) ++ s.state.waitingW
  free : s.state.bvalid = true → s.state.aw_pending = false ∧ s.state.w_pending = false
  registers : s.state.registers = s.filter.registers
  phase : Phase s.state (s.taken.map BitVec.toInt) s.filter

theorem holds_reset : Holds reset :=
  ⟨rfl, rfl, nofun, rfl, .settled rfl rfl rfl rfl (.reset rfl) rfl⟩

theorem clock_of_resetn {i : Input} (h : i.resetn = true) : s.clock i =
    { state := s.state.clock i
      aws := s.aws ++ if s.state.awready && i.awvalid then [i.awaddr] else []
      ws := s.ws ++ if s.state.wready && i.wvalid then [(i.wdata, i.wstrb)] else []
      writes := s.writes ++ if s.state.writeCommit then [s.state.hold] else []
      taken := s.taken ++ s.state.due } := if_pos h

theorem Holds.clock (h : s.Holds) (i : Input) : (s.clock i).Holds := by
  cases hresetn : i.resetn with
  | false =>
    rw [Session.clock, hresetn]
    exact holds_reset
  | true =>
    have hclock := clock_of_resetn (s := s) hresetn
    have hstate : (s.clock i).state = s.state.clock i := by rw [hclock]
    have htaken : (s.clock i).taken.map BitVec.toInt =
        s.taken.map BitVec.toInt ++ s.state.dueOutputs := by
      rw [hclock, List.map_append]
      rfl
    have haws := h.aws
    have hws := h.ws
    cases hcommit : s.state.writeCommit with
    | true =>
      have hwrites : (s.clock i).writes = s.writes ++ [s.state.hold] := by
        rw [hclock]
        simp [hcommit]
      have hfilter : (s.clock i).filter = s.filter.write s.state.hold := by
        rw [filter, hwrites, List.foldl_append]
        rfl
      have hpending := hcommit
      simp only [State.writeCommit, Bool.and_eq_true, Bool.not_eq_true'] at hpending
      obtain ⟨⟨hawp, hwp⟩, hb⟩ := hpending
      rw [State.waitingAw, hawp] at haws
      rw [State.waitingW, hwp] at hws
      refine ⟨?_, ?_, ?_, ?_, ?_⟩
      · rw [hwrites, hstate, hclock]
        simp [State.clock, State.waitingAw, hcommit, State.awready, hawp, haws]
      · rw [hwrites, hstate, hclock]
        simp [State.clock, State.waitingW, hcommit, State.wready, hwp, hws]
      · simp [hstate, State.clock, hcommit]
      · rw [hfilter, hstate, Filter.registers_write, ← h.registers]
        simp [State.clock, hcommit]
      · rw [hstate, hfilter, htaken]
        exact h.phase.commit h.registers hcommit i
    | false =>
      have hwrites : (s.clock i).writes = s.writes := by
        rw [hclock]
        simp [hcommit]
      have hfilter : (s.clock i).filter = s.filter := by rw [filter, hwrites]; rfl
      refine ⟨?_, ?_, ?_, ?_, ?_⟩
      · rw [hwrites, hstate, hclock, haws]
        cases hp : s.state.aw_pending <;> cases hv : i.awvalid <;> cases hb : s.state.bvalid <;>
          simp [State.clock, State.waitingAw, hcommit, State.awready, hp, hv, hb]
      · rw [hwrites, hstate, hclock, hws]
        cases hp : s.state.w_pending <;> cases hv : i.wvalid <;> cases hb : s.state.bvalid <;>
          simp [State.clock, State.waitingW, hcommit, State.wready, hp, hv, hb]
      · intro hb
        have hbvalid : s.state.bvalid = true := by
          rw [hstate] at hb
          simp only [State.clock, hcommit, Bool.false_or, Bool.and_eq_true] at hb
          exact hb.1
        obtain ⟨haw, hw⟩ := h.free hbvalid
        rw [hstate]
        simp [State.clock, State.awready, State.wready, hbvalid, haw, hw]
      · rw [hfilter, hstate, ← h.registers]
        simp [State.clock, hcommit]
      · rw [hstate, hfilter, htaken]
        exact h.phase.clock hcommit i

theorem Holds.foldl (h : s.Holds) (is : List Input) : (is.foldl Session.clock s).Holds := by
  induction is generalizing s with
  | nil => exact h
  | cons i is ih => exact ih (h.clock i)

theorem Holds.refines (h : s.Holds) : s.Refines := by
  have hphase := h.phase
  refine ⟨h.aws, h.ws, ?_, h.registers, hphase.outputs_eq, ?_, ?_, ?_⟩
  · intro haw hw
    have hb : s.state.bvalid = false := by
      rw [← Bool.not_eq_true]
      intro hb
      exact nomatch haw.symm.trans (h.free hb).1
    rw [State.writeCommit, haw, hw, hb]
    rfl
  · intro hstart hclear
    cases hphase with
    | settled _ _ _ _ shows | taking _ _ _ _ _ _ _ shows => exact shows
    | starting _ start => exact nomatch hstart.symm.trans start
    | clearing clear => exact nomatch hclear.symm.trans clear
  · intro hdone i hresetn
    have hcommit : s.state.writeCommit = false := by
      rw [← Bool.not_eq_true]
      intro hcommit
      exact nomatch hdone.symm.trans (hphase.of_commit hcommit).2.2.1
    rw [statusValue_done, clock_of_resetn hresetn]
    simp [State.clock, hcommit, hdone]
  · intro hstart hdone
    rw [statusValue_done]
    cases hphase with
    | settled _ _ _ done => exact done
    | taking _ _ core_done => exact nomatch hdone.symm.trans core_done
    | starting _ start => exact nomatch hstart.symm.trans start
    | clearing _ _ done _ _ _ _ cleared => rw [done, cleared]

/-- **The peripheral is the filter over unbounded integers**, and its datapath is exact. -/
theorem filters_exactly (is : List Input) :
    (is.foldl clock reset).Refines ∧ (∀ p h x, Exact p h x) ∧
      ∀ lower upper z, lower ≤ upper → clamp lower upper z = max lower (min upper z) :=
  ⟨(holds_reset.foldl is).refines, exact_datapath, fun _ _ z hle => clamp_eq_max_min hle z⟩

/-- A write of a whole word. -/
def demoWrite (awaddr : BitVec 8) (wdata : BitVec 32) : List Input :=
  [⟨true, true, awaddr, true, wdata, 0xF, true⟩, ⟨true, false, 0, false, 0, 0, true⟩,
    ⟨true, false, 0, false, 0, 0, true⟩]

/-- Half of the last input is added: of 1000 and 2000 the second becomes 2500. -/
def demoRun : List Input :=
  demoWrite 0x14 0x20000000 ++ demoWrite 0x08 1000 ++ demoWrite 0x00 1 ++ demoWrite 0x08 2000 ++
    demoWrite 0x00 1

theorem filters_exactly_demo : (demoRun.foldl clock reset).taken = [1000, 2500] ∧
    (demoRun.foldl clock reset).Refines :=
  ⟨by decide +kernel, (filters_exactly demoRun).1⟩

end Session
end Atoman.Iir
