import Atoman.Shell.Lines

/-!
# Commands among the variables

A command has no value and no limits: its pointers are NULL. The requests and the tasks go
through the list of all items, and a dereference of NULL is a fault.
-/

namespace Atoman.Shell
open Comm (Packet)
open Lib (Memory)

/-- A pointer of an item: NULL in a command, as the registration macro has it. -/
def Item.pointer (p : Item) (object : ℕ) : Option ℕ := if p.type = .cmd then none else some object

/-- `*(uint32_t *)pointer`; NULL has no value -/
def loadWord (pointer : Option ℕ) (m : Memory UInt8) : Option (List UInt8) :=
  pointer.map fun object => m.slice object 4

/-- `shell_report_ctx_t`; the cursor is a place in the list -/
structure ReportCtx where
  active : Bool
  my_printf : ℕ
  sop : UInt8
  version : UInt8
  seq : UInt8
  src : UInt8
  d_src : UInt8
  dst : UInt8
  d_dst : UInt8
  p_item : ℕ

/-- `SHELL_WAVE_FSM_E` -/
inductive WaveFsm
  | idle | start | data | finish | wait
deriving DecidableEq

/-- The variables of `shell_wave_report_task` -/
structure WaveTask where
  fsm : WaveFsm
  delay_cnt : UInt8
  p_item : ℕ
  report_dn_cnt : UInt32

/-- A frame that a task sends: a v1 session keeps its protocol, every other one has 0xE8. -/
def streamed (sop version seq src d_src dst d_dst cmd_word : UInt8) (p_data : List UInt8)
    (my_printf : ℕ) : Reply where
  packet :=
    { sop := if sop = 0xE9 then 0xE9 else 0xE8
      version := if sop = 0xE9 then version else 0
      src := src
      d_src := d_src
      dst := dst
      d_dst := d_dst
      cmd_set := 1
      cmd_word := cmd_word
      is_ack := 0
      len := UInt16.ofNat p_data.length
      crc := 0
      eop := 0
      seq := if sop = 0xE9 then seq else 0 }
  p_data := p_data
  my_printf := my_printf

/-- The sequence number behind one, in a v1 session -/
def nextSeq (sop seq : UInt8) : UInt8 := if sop = 0xE9 then (seq + 1) &&& 7 else seq

/-- `shell_data_num_act` -/
def dataNumAct (items : List Item) (p_pack : Packet) (my_printf : ℕ) (report : ReportCtx) :
    ReportCtx × List Reply :=
  if p_pack.is_ack ≠ 0 then (report, [])
  else
    ({ active := true
       my_printf := my_printf
       sop := p_pack.sop
       version := p_pack.version
       seq := p_pack.seq
       src := p_pack.dst
       d_src := p_pack.d_dst
       dst := p_pack.src
       d_dst := p_pack.d_src
       p_item := 0 },
      [answer p_pack 1 (Lib.u32Le (UInt32.ofNat (min items.length (2 ^ 32 - 1)))) my_printf])

/-! ## What dereferences -/

namespace Deref

/-- `shell_read_data_act` -/
def readDataAct (items : List Item) (p_pack : Packet) (p_data : Memory UInt8) (my_printf : ℕ)
    (s : Shell) : Option (Shell × List Reply) :=
  if p_pack.len.toNat ≠ 1 + (p_data 0).toNat then some (s, [])
  else
    match shellFind items p_data 1 (p_data 0) with
    | none => some (s, [])
    | some (p, _) => do
      let s := { s with memory := p.call s.memory }
      let data ← loadWord (p.pointer p.p_var) s.memory
      let ret := [UInt8.ofNat p.p_name.length, p.type.code] ++ data ++ p.p_name
      pure (s, [answer p_pack 2 ret my_printf])

/-- The `switch` of `shell_write_data_act` -/
def writeObjects (p : Item) (data data_max data_min : List UInt8) (m : Memory UInt8) :
    Option (Memory UInt8) :=
  if p.type = .cmd then some m
  else do
    let p_var ← p.pointer p.p_var
    let m := m.write p_var (data.take p.type.size)
    let p_max ← p.pointer p.p_max
    let m := m.write p_max (data_max.take p.type.size)
    let p_min ← p.pointer p.p_min
    pure (m.write p_min (data_min.take p.type.size))

/-- `shell_write_data_act` -/
def writeDataAct (items : List Item) (p_pack : Packet) (p_data : Memory UInt8) (my_printf : ℕ)
    (s : Shell) : Option (Shell × List Reply) :=
  match shellFind items p_data 13 (p_data 0) with
  | none => some (s, [])
  | some (p, _) => do
    let memory ← writeObjects p (p_data.slice 1 4) (p_data.slice 5 4) (p_data.slice 9 4) s.memory
    let data ← loadWord (p.pointer p.p_var) memory
    let data_max ← loadWord (p.pointer p.p_max) memory
    let data_min ← loadWord (p.pointer p.p_min) memory
    let ret :=
      [UInt8.ofNat p.p_name.length, p.type.code] ++ data ++ data_max ++ data_min ++ p.p_name
    pure ({ s with memory := p.call memory }, [answer p_pack 3 ret my_printf])

/-- The handler of a frame. The three of the wave stream have no pointer of an item to follow. -/
def act (handler : Handler) (items : List Item) (p_pack : Packet) (my_printf : ℕ) (c : Context) :
    Option (Shell × List Reply) :=
  match handler with
  | .read => readDataAct items p_pack c.p_data my_printf c.shell
  | .write => writeDataAct items p_pack c.p_data my_printf c.shell
  | handler => some (handler.act items p_pack my_printf c)

/-- The values in a report: a command has none -/
def reportValues (p : Item) (m : Memory UInt8) : Option (List UInt8) :=
  if p.type ≠ .cmd then do
    let data ← loadWord (p.pointer p.p_var) m
    let data_max ← loadWord (p.pointer p.p_max) m
    let data_min ← loadWord (p.pointer p.p_min) m
    pure (data ++ data_max ++ data_min)
  else some (List.replicate 12 0)

/-- `shell_data_report_act` -/
def dataReportAct (items : List Item) (s : Shell) (report : ReportCtx) :
    Option (ReportCtx × List Reply) :=
  if report.active = false then some (report, [])
  else
    match items[report.p_item]? with
    | none => some ({ report with active := false }, [])
    | some p => do
      let values ← reportValues p s.memory
      let auto_report := if s.status report.p_item &&& 4 ≠ 0 then 1 else 0
      let list := [UInt8.ofNat p.p_name.length, p.type.code] ++ values ++ [auto_report] ++ p.p_name
      let seq := nextSeq report.sop report.seq
      pure ({ report with seq := seq, p_item := report.p_item + 1 },
        [streamed report.sop 1 seq report.src report.d_src report.dst report.d_dst 4 list
          report.my_printf])

/-- `shell_wave_param_act`; without an output nothing is sent -/
def waveParamAct (p_data : List UInt8) (s : Shell) : Shell × List Reply :=
  let seq := nextSeq s.wave_sop s.wave_seq
  ({ s with wave_seq := seq },
    (s.p_wave_report_printf.map
      (streamed s.wave_sop s.wave_version seq s.wave_src 0 s.wave_dst 0 7 p_data)).toList)

/-- The loop of `SHELL_WAVE_FSM_DATA`: the first item with bit 2 from the cursor on -/
def firstMarked (status : ℕ → UInt32) : ℕ → List Item → Option (Item × ℕ)
  | _, [] => none
  | i, p :: items =>
    if status i &&& 4 ≠ 0 then some (p, i) else firstMarked status (i + 1) items

/-- `shell_wave_report_task` -/
def waveReportTask (items : List Item) (s : Shell) (w : WaveTask) :
    Option (Shell × WaveTask × List Reply) :=
  match w.fsm with
  | .idle => some (s, { w with fsm := if s.wave_report_flg ≠ 0 then .start else .idle }, [])
  | .start =>
    let (s, sent) := waveParamAct ([0, 0] ++ Lib.u32Le 0x55555555) s
    some (s, { w with fsm := .data, p_item := 0, delay_cnt := 10 }, sent)
  | .data =>
    if w.delay_cnt ≠ 0 then some (s, { w with delay_cnt := w.delay_cnt - 1 }, [])
    else
      match firstMarked s.status w.p_item (items.drop w.p_item) with
      | none => some (s, { w with fsm := .finish, p_item := items.length, delay_cnt := 10 }, [])
      | some (p, i) => do
        let data ← loadWord (p.pointer p.p_var) s.memory
        let param := [UInt8.ofNat p.p_name.length, p.type.code] ++ data ++ p.p_name
        let (s, sent) := waveParamAct param s
        let fsm := if i + 1 < items.length then .data else .finish
        pure (s, { w with fsm := fsm, p_item := i + 1, delay_cnt := 10 }, sent)
  | .finish =>
    let (s, sent) := waveParamAct ([0, 0] ++ Lib.u32Le 0xAAAAAAAA) s
    some (s, { w with fsm := .wait, report_dn_cnt := s.wave_report_period }, sent)
  | .wait =>
    let cnt := if w.report_dn_cnt ≠ 0 then w.report_dn_cnt - 1 else w.report_dn_cnt
    let fsm := if s.wave_report_flg = 0 then .idle else if cnt = 0 then .start else .wait
    some (s, { w with fsm := fsm, report_dn_cnt := cnt }, [])

end Deref

/-! ## Runs -/

/-- The shell with its text side, the variables of the tasks, and the frames that were sent. -/
structure System where
  console : Console
  report : ReportCtx
  wave : WaveTask
  sent : List Reply

/-- A frame that comes in, the text that a line break on a text link hands over, or the time of
a task. -/
inductive Event
  | dataNum (p_pack : Packet) (my_printf : ℕ)
  | frame (handler : Handler) (p_pack : Packet) (p_data : Memory UInt8) (my_printf : ℕ)
      (stack : UInt8)
  | text (text : List UInt8) (my_printf : ℕ)
  | dataReport
  | waveReport

/-- What comes of an event. A fault is a dereference of NULL, a hang a value text that does not
end. -/
inductive Outcome
  | next (s : System)
  | fault
  | hang

/-- Without a result there was a fault. -/
def Outcome.orFault : Option System → Outcome
  | some s => .next s
  | none => .fault

section
variable {F : Type} (T : Target F) (items : List Item)

/-- One event. -/
def exec (s : System) : Event → Outcome
  | .dataNum p_pack my_printf =>
    let (report, sent) := dataNumAct items p_pack my_printf s.report
    .next { s with report := report, sent := s.sent ++ sent }
  | .frame handler p_pack p_data my_printf stack =>
    .orFault <| (Deref.act handler items p_pack my_printf ⟨p_data, stack, s.console.shell⟩).map
      fun (shell, sent) =>
        { s with console := { s.console with shell := shell }, sent := s.sent ++ sent }
  | .text text my_printf =>
    match dispatch T items my_printf text s.console with
    | some console => .next { s with console := console }
    | none => .hang
  | .dataReport =>
    .orFault <| (Deref.dataReportAct items s.console.shell s.report).map fun (report, sent) =>
      { s with report := report, sent := s.sent ++ sent }
  | .waveReport =>
    .orFault <| (Deref.waveReportTask items s.console.shell s.wave).map fun (shell, wave, sent) =>
      { s with
        console := { s.console with shell := shell }
        wave := wave
        sent := s.sent ++ sent }

/-- One event after the other, up to a fault or a hang. -/
def run : List Event → System → Outcome
  | [], s => .next s
  | e :: es, s =>
    match exec T items s e with
    | .next s => run es s
    | outcome => outcome

/-- A command is named by a read or a write, or is what the wave task has come to. -/
def Dereferences (s : System) : Event → Prop
  | .frame .read p_pack p_data _ _ =>
    p_pack.len.toNat = 1 + (p_data 0).toNat ∧
      ∃ p i, shellFind items p_data 1 (p_data 0) = some (p, i) ∧ p.type = .cmd
  | .frame .write _ p_data _ _ =>
    ∃ p i, shellFind items p_data 13 (p_data 0) = some (p, i) ∧ p.type = .cmd
  | .waveReport =>
    s.wave.fsm = .data ∧ s.wave.delay_cnt = 0 ∧
      ∃ p i, Deref.firstMarked s.console.shell.status s.wave.p_item (items.drop s.wave.p_item) =
        some (p, i) ∧ p.type = .cmd
  | _ => False

/-- The text sets bit 2 in the status of a command. -/
def Marks (text : List UInt8) : Prop :=
  text ≠ [] ∧ text ≠ helpText ∧ ∃ p i payload, addressed items text = some (p, i) ∧
    p.type = .cmd ∧ payloadOf text p.p_name = some payload ∧
    let status_set := (parseParamValueAndStatus T (payload.map Char.ofUInt8)).2
    0 ≤ status_set ∧ UInt32.ofNat status_set.toNat &&& 4 ≠ 0

/-- The event reads and writes no command, and does not mark one for the wave. -/
def Event.Spares : Event → Prop
  | .frame .read p_pack p_data _ _ =>
    p_pack.len.toNat = 1 + (p_data 0).toNat →
      ∀ p i, shellFind items p_data 1 (p_data 0) = some (p, i) → p.type ≠ .cmd
  | .frame .write _ p_data _ _ =>
    ∀ p i, shellFind items p_data 13 (p_data 0) = some (p, i) → p.type ≠ .cmd
  | .frame .waveEnable p_pack p_data _ _ =>
    p_pack.len.toNat = 2 + (p_data 0).toNat → p_data 1 ≠ 0 →
      ∀ p i, shellFind items p_data 2 (p_data 0) = some (p, i) → p.type ≠ .cmd
  | .text str _ => ¬ Marks T items str
  | _ => True

end

/-! ## Faults -/

section
variable {p : Item} {m : Memory UInt8}

theorem pointer_eq_none_iff {object : ℕ} : p.pointer object = none ↔ p.type = .cmd := by
  unfold Item.pointer
  split
  · next hcmd => exact iff_of_true rfl hcmd
  · next hcmd => exact iff_of_false nofun hcmd

theorem pointer_of_ne (h : p.type ≠ .cmd) (object : ℕ) : p.pointer object = some object := if_neg h

theorem loadWord_of_ne (h : p.type ≠ .cmd) (object : ℕ) :
    loadWord (p.pointer object) m = some (m.slice object 4) := by
  rw [pointer_of_ne h]
  rfl

theorem loadWord_of_eq (h : p.type = .cmd) (object : ℕ) : loadWord (p.pointer object) m = none := by
  rw [pointer_eq_none_iff.mpr h]
  rfl

theorem writeObjects_of_ne (h : p.type ≠ .cmd) (data data_max data_min : List UInt8) :
    Deref.writeObjects p data data_max data_min m = some (p.store data data_max data_min m) := by
  unfold Deref.writeObjects
  rw [if_neg h]
  simp only [pointer_of_ne h]
  rfl

theorem reportValues_isSome (p : Item) (m : Memory UInt8) :
    (Deref.reportValues p m).isSome = true := by
  unfold Deref.reportValues
  split
  · next hcmd =>
    simp only [loadWord_of_ne hcmd]
    rfl
  · rfl

end

section
variable {items : List Item} {p_pack : Packet} {p_data : Memory UInt8} {my_printf : ℕ} {s : Shell}

/-- **A read** of anything but a command is the handler of the other module. -/
theorem readDataAct_eq (h : p_pack.len.toNat = 1 + (p_data 0).toNat →
    ∀ p i, shellFind items p_data 1 (p_data 0) = some (p, i) → p.type ≠ .cmd) :
    Deref.readDataAct items p_pack p_data my_printf s =
      some (readDataAct items p_pack p_data my_printf s) := by
  unfold Deref.readDataAct Shell.readDataAct
  split
  · rfl
  next hlen =>
  cases hfound : shellFind items p_data 1 (p_data 0) with
  | none => rfl
  | some found =>
    have hcmd := h (not_not.mp hlen) found.1 found.2 hfound
    simp only [loadWord_of_ne hcmd]
    rfl

theorem readDataAct_eq_none {p : Item} {i : ℕ} (hlen : p_pack.len.toNat = 1 + (p_data 0).toNat)
    (h : shellFind items p_data 1 (p_data 0) = some (p, i)) (hcmd : p.type = .cmd) :
    Deref.readDataAct items p_pack p_data my_printf s = none := by
  unfold Deref.readDataAct
  rw [if_neg (not_not_intro hlen), h]
  dsimp only
  rw [loadWord_of_eq hcmd]
  rfl

/-- **A write** of anything but a command is the handler of the other module. -/
theorem writeDataAct_eq
    (h : ∀ p i, shellFind items p_data 13 (p_data 0) = some (p, i) → p.type ≠ .cmd) :
    Deref.writeDataAct items p_pack p_data my_printf s =
      some (writeDataAct items p_pack p_data my_printf s) := by
  unfold Deref.writeDataAct Shell.writeDataAct
  cases hfound : shellFind items p_data 13 (p_data 0) with
  | none => rfl
  | some found =>
    have hcmd := h found.1 found.2 hfound
    dsimp only
    rw [writeObjects_of_ne hcmd]
    simp only [loadWord_of_ne hcmd, Option.bind_eq_bind, Option.bind_some]
    rfl

theorem writeDataAct_eq_none {p : Item} {i : ℕ}
    (h : shellFind items p_data 13 (p_data 0) = some (p, i)) (hcmd : p.type = .cmd) :
    Deref.writeDataAct items p_pack p_data my_printf s = none := by
  unfold Deref.writeDataAct
  rw [h]
  dsimp only
  unfold Deref.writeObjects
  rw [if_pos hcmd]
  simp only [loadWord_of_eq hcmd, Option.bind_eq_bind, Option.bind_some]
  rfl

end

/-- The item at which the loop stops is marked. -/
theorem marked_of_firstMarked {status : ℕ → UInt32} {items : List Item} {start i : ℕ} {p : Item}
    (h : Deref.firstMarked status start (items.drop start) = some (p, i)) :
    items[i]? = some p ∧ status i &&& 4 ≠ 0 := by
  generalize hrest : items.drop start = rest at h
  fun_induction Deref.firstMarked status start rest with
  | case1 => exact nomatch h
  | case2 start q rest hmark =>
    obtain ⟨rfl, rfl⟩ := Prod.mk.inj (Option.some.inj h)
    refine ⟨?_, hmark⟩
    rw [← List.head?_drop, hrest]
    rfl
  | case3 start q rest hmark ih =>
    refine ih ?_ h
    rw [← List.tail_drop, hrest]
    rfl

/-- The wave task faults exactly where it has come to a command. -/
theorem waveReportTask_eq_none_iff {items : List Item} {s : Shell} {w : WaveTask} :
    Deref.waveReportTask items s w = none ↔ w.fsm = .data ∧ w.delay_cnt = 0 ∧
      ∃ p i, Deref.firstMarked s.status w.p_item (items.drop w.p_item) = some (p, i) ∧
        p.type = .cmd := by
  unfold Deref.waveReportTask
  cases hfsm : w.fsm with
  | idle => exact iff_of_false nofun nofun
  | start => exact iff_of_false nofun nofun
  | finish => exact iff_of_false nofun nofun
  | wait => exact iff_of_false nofun nofun
  | data =>
    dsimp only
    split
    · next hdelay => exact iff_of_false nofun fun h => hdelay h.2.1
    next hdelay =>
    cases hfound : Deref.firstMarked s.status w.p_item (items.drop w.p_item) with
    | none =>
      refine iff_of_false nofun ?_
      rintro ⟨-, -, p, i, hsome, -⟩
      exact nomatch hsome
    | some found =>
      by_cases hcmd : found.1.type = .cmd
      · refine iff_of_true ?_ ⟨rfl, not_not.mp hdelay, found.1, found.2, rfl, hcmd⟩
        dsimp only
        rw [loadWord_of_eq hcmd]
        rfl
      · refine iff_of_false ?_ ?_
        · dsimp only
          rw [loadWord_of_ne hcmd]
          exact nofun
        · rintro ⟨-, -, p, i, hsome, hp⟩
          obtain rfl := Option.some.inj hsome
          exact hcmd hp

theorem dataReportAct_isSome (items : List Item) (s : Shell) (report : ReportCtx) :
    (Deref.dataReportAct items s report).isSome = true := by
  unfold Deref.dataReportAct
  split
  · rfl
  split
  · rfl
  next p hp =>
  obtain ⟨values, hvalues⟩ := Option.isSome_iff_exists.mp (reportValues_isSome p s.memory)
  rw [hvalues]
  rfl

section
variable {F : Type} (T : Target F) {items : List Item} {s : System} {e : Event}

theorem orFault_eq_fault_iff {o : Option System} : Outcome.orFault o = .fault ↔ o = none := by
  cases o with
  | none => exact iff_of_true rfl rfl
  | some s => exact iff_of_false nofun nofun

theorem orFault_eq_next_iff {o : Option System} {t : System} :
    Outcome.orFault o = .next t ↔ o = some t := by
  cases o with
  | none => exact iff_of_false nofun nofun
  | some s =>
    exact ⟨fun h => congrArg some (Outcome.next.inj h), fun h => congrArg _ (Option.some.inj h)⟩

/-- **An event faults** exactly if it dereferences a pointer of a command. -/
theorem exec_eq_fault_iff : exec T items s e = .fault ↔ Dereferences items s e := by
  cases e with
  | dataNum p_pack my_printf => exact iff_of_false nofun id
  | text text my_printf =>
    refine iff_of_false ?_ id
    unfold exec
    dsimp only
    split
    · exact nofun
    · exact nofun
  | dataReport =>
    refine iff_of_false ?_ id
    unfold exec
    rw [orFault_eq_fault_iff, Option.map_eq_none_iff]
    intro hnone
    have hsome := dataReportAct_isSome items s.console.shell s.report
    rw [hnone] at hsome
    exact nomatch hsome
  | waveReport =>
    unfold exec
    rw [orFault_eq_fault_iff, Option.map_eq_none_iff]
    exact waveReportTask_eq_none_iff
  | frame handler p_pack p_data my_printf stack =>
    unfold exec
    rw [orFault_eq_fault_iff, Option.map_eq_none_iff]
    cases handler with
    | read =>
      constructor
      · intro hnone
        by_contra hspares
        refine absurd (hnone.symm.trans (readDataAct_eq fun hlen p i hfound hcmd => ?_)) nofun
        exact hspares ⟨hlen, p, i, hfound, hcmd⟩
      · rintro ⟨hlen, p, i, hfound, hcmd⟩
        exact readDataAct_eq_none hlen hfound hcmd
    | write =>
      constructor
      · intro hnone
        by_contra hspares
        refine absurd (hnone.symm.trans (writeDataAct_eq fun p i hfound hcmd => ?_)) nofun
        exact hspares ⟨p, i, hfound, hcmd⟩
      · rintro ⟨p, i, hfound, hcmd⟩
        exact writeDataAct_eq_none hfound hcmd
    | waveEnable => exact iff_of_false nofun id
    | waveStart => exact iff_of_false nofun id
    | wavePeriod => exact iff_of_false nofun id

end

end Atoman.Shell
