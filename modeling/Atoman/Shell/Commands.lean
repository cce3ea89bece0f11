import Atoman.Shell.Pointers

/-!
# Commands stay out of the wave

As long as nothing sets bit 2 in the status of a command, the wave task does not come to one;
then only a read or a write that names a command follows its pointers.
-/

namespace Atoman.Shell
open Lib (Memory)
open Comm (Packet)

/-- No command has bit 2 in its status. -/
def Unmarked (items : List Item) (status : ℕ → UInt32) : Prop :=
  ∀ i p, items[i]? = some p → p.type = .cmd → status i &&& 4 = 0

/-- Everything is as the registration macros and the initializers leave it: the status of a
command is 0. -/
structure Started (items : List Item) (s : System) : Prop where
  status_eq : ∀ i p, items[i]? = some p → p.type = .cmd → s.console.shell.status i = 0
  active_eq : s.report.active = false
  fsm_eq : s.wave.fsm = .idle
  flg_eq : s.console.shell.wave_report_flg = 0

section
variable {F : Type} (T : Target F) {items : List Item} {s : System} {e : Event}

theorem Started.unmarked (h : Started items s) : Unmarked items s.console.shell.status := by
  intro i p hp hcmd
  rw [h.status_eq i p hp hcmd]
  rfl

theorem Unmarked.not_dereferences (h : Unmarked items s.console.shell.status)
    (hspares : e.Spares T items) : ¬ Dereferences items s e := by
  cases e with
  | dataNum p_pack my_printf => exact id
  | text text my_printf => exact id
  | dataReport => exact id
  | waveReport =>
    rintro ⟨-, -, p, i, hfound, hcmd⟩
    obtain ⟨hp, hmark⟩ := marked_of_firstMarked hfound
    exact hmark (h i p hp hcmd)
  | frame handler p_pack p_data my_printf stack =>
    cases handler with
    | read =>
      rintro ⟨hlen, p, i, hfound, hcmd⟩
      exact hspares hlen p i hfound hcmd
    | write =>
      rintro ⟨p, i, hfound, hcmd⟩
      exact hspares p i hfound hcmd
    | waveEnable => exact id
    | waveStart => exact id
    | wavePeriod => exact id

end

/-- A new status of one item matters to a command only if it is the item. -/
theorem Unmarked.update {items : List Item} {status : ℕ → UInt32} (h : Unmarked items status)
    {i : ℕ} {p : Item} (hp : items[i]? = some p) {value : UInt32}
    (hvalue : p.type = .cmd → value &&& 4 = 0) :
    Unmarked items (Function.update status i value) := by
  intro j q hq hcmd
  by_cases hij : j = i
  · subst hij
    obtain rfl := Option.some.inj (hp.symm.trans hq)
    rw [Function.update_self]
    exact hvalue hcmd
  · rw [Function.update_of_ne hij]
    exact h j q hq hcmd

theorem getElem?_of_shellFind {items : List Item} {p_data : Memory UInt8} {p_name i : ℕ}
    {len : UInt8} {p : Item} (h : shellFind items p_data p_name len = some (p, i)) :
    items[i]? = some p :=
  List.mem_zipIdx_iff_getElem?.mp (List.mem_of_find?_eq_some h)

theorem getElem?_of_addressed {items : List Item} {text : List UInt8} {p : Item} {i : ℕ}
    (h : addressed items text = some (p, i)) : items[i]? = some p :=
  List.mem_zipIdx_iff_getElem?.mp (List.mem_of_find?_eq_some h)

/-- A payload sets no status but that of its item. -/
theorem status_handleParam {F : Type} (T : Target F) {p : Item} {i my_printf : ℕ}
    {param : Option (List UInt8)} {s s' : Console}
    (h : handleParam T p i param my_printf s = some s') :
    s'.shell.status = s.shell.status ∨ ∃ payload, param = some payload ∧
      let status_set := (parseParamValueAndStatus T (payload.map Char.ofUInt8)).2
      0 ≤ status_set ∧
        s'.shell.status = Function.update s.shell.status i (UInt32.ofNat status_set.toNat) := by
  have hset (c : Console) (hc : c.shell.status = s.shell.status) (status_set : ℤ) :
      (c.setStatus i status_set my_printf).shell.status = s.shell.status ∨ 0 ≤ status_set ∧
        (c.setStatus i status_set my_printf).shell.status =
          Function.update s.shell.status i (UInt32.ofNat status_set.toNat) := by
    unfold Console.setStatus
    split
    · next hle =>
      rw [← hc]
      exact Or.inr ⟨hle, rfl⟩
    · exact Or.inl hc
  have hshape : ∃ c : Console, c.shell.status = s.shell.status ∧
      s' = c.setStatus i ((param.map (·.map Char.ofUInt8)).elim (none, -1)
        (parseParamValueAndStatus T)).2 my_printf := by
    dsimp only [handleParam] at h
    split at h
    · exact ⟨s.withMemory (p.call s.shell.memory), rfl, (Option.some.inj h).symm⟩
    split at h
    · exact ⟨s.print p, rfl, (Option.some.inj h).symm⟩
    · obtain ⟨memory, -, hmemory⟩ := Option.map_eq_some_iff.mp h
      exact ⟨(s.withMemory memory).print p, rfl, hmemory.symm⟩
  obtain ⟨c, hc, rfl⟩ := hshape
  cases param with
  | none => exact Or.inl hc
  | some payload =>
    rcases hset c hc _ with hsame | ⟨hle, hupdate⟩
    · exact Or.inl hsame
    · exact Or.inr ⟨payload, rfl, hle, hupdate⟩

theorem Unmarked.dispatch {F : Type} {T : Target F} {items : List Item} {my_printf : ℕ}
    {text : List UInt8} {s s' : Console} (h : Unmarked items s.shell.status)
    (hmarks : ¬ Marks T items text) (hs : dispatch T items my_printf text s = some s') :
    Unmarked items s'.shell.status := by
  unfold Shell.dispatch at hs
  split at hs
  · exact Option.some.inj hs ▸ h
  next hnil =>
  split at hs
  · exact Option.some.inj hs ▸ h
  next hhelp =>
  split at hs
  · exact Option.some.inj hs ▸ h
  next p i hfound =>
  rcases status_handleParam T hs with hsame | ⟨payload, hpayload, hle, hupdate⟩
  · rw [hsame]
    exact h
  rw [hupdate]
  refine h.update (getElem?_of_addressed hfound) fun hcmd => ?_
  by_contra hmark
  exact hmarks ⟨hnil, hhelp, p, i, payload, hfound, hcmd, hpayload, hle, hmark⟩

theorem status_readDataAct (items : List Item) (p_pack : Packet) (p_data : Memory UInt8)
    (my_printf : ℕ) (s : Shell) :
    (readDataAct items p_pack p_data my_printf s).1.status = s.status := by
  unfold Shell.readDataAct
  split
  · rfl
  split
  · rfl
  · rfl

theorem status_writeDataAct (items : List Item) (p_pack : Packet) (p_data : Memory UInt8)
    (my_printf : ℕ) (s : Shell) :
    (writeDataAct items p_pack p_data my_printf s).1.status = s.status := by
  unfold Shell.writeDataAct
  split
  · rfl
  · rfl

theorem Unmarked.waveParamEnableAct {items : List Item} {p_pack : Packet} {p_data : Memory UInt8}
    {s : Shell} (h : Unmarked items s.status) (my_printf : ℕ) (stack : UInt8)
    (hspares : p_pack.len.toNat = 2 + (p_data 0).toNat → p_data 1 ≠ 0 →
      ∀ p i, shellFind items p_data 2 (p_data 0) = some (p, i) → p.type ≠ .cmd) :
    Unmarked items (waveParamEnableAct items p_pack p_data my_printf stack s).1.status := by
  unfold Shell.waveParamEnableAct
  split
  · exact h
  next hlen =>
  split
  · exact h
  next p i hfound =>
  refine h.update (getElem?_of_shellFind hfound) fun hcmd => ?_
  split
  · next hreport => exact absurd hcmd (hspares (not_not.mp hlen) hreport p i hfound)
  · -- switching the report off clears the bit
    have hmask : ~~~(4 : UInt32) &&& 4 = 0 := by decide
    rw [UInt32.and_assoc, hmask, UInt32.and_zero]

theorem status_waveReportTask {items : List Item} {s s' : Shell} {w w' : WaveTask}
    {sent : List Reply} (h : Deref.waveReportTask items s w = some (s', w', sent)) :
    s'.status = s.status := by
  unfold Deref.waveReportTask at h
  split at h
  · exact congrArg (·.1.status) (Option.some.inj h).symm
  · exact congrArg (·.1.status) (Option.some.inj h).symm
  · split at h
    · exact congrArg (·.1.status) (Option.some.inj h).symm
    split at h
    · exact congrArg (·.1.status) (Option.some.inj h).symm
    · obtain ⟨data, -, hnext⟩ := Option.bind_eq_some_iff.mp h
      exact congrArg (·.1.status) (Option.some.inj hnext).symm
  · exact congrArg (·.1.status) (Option.some.inj h).symm
  · exact congrArg (·.1.status) (Option.some.inj h).symm

section
variable {F : Type} {T : Target F} {items : List Item}

/-- **An event** that spares the commands leaves them unmarked. -/
theorem Unmarked.exec {s t : System} {e : Event} (h : Unmarked items s.console.shell.status)
    (hspares : e.Spares T items) (hnext : exec T items s e = .next t) :
    Unmarked items t.console.shell.status := by
  cases e with
  | dataNum p_pack my_printf =>
    obtain rfl := Outcome.next.inj hnext
    exact h
  | text text my_printf =>
    unfold Shell.exec at hnext
    dsimp only at hnext
    split at hnext
    · next console hconsole =>
      obtain rfl := Outcome.next.inj hnext
      exact h.dispatch hspares hconsole
    · exact nomatch hnext
  | dataReport =>
    obtain ⟨r, -, rfl⟩ := Option.map_eq_some_iff.mp (orFault_eq_next_iff.mp hnext)
    exact h
  | waveReport =>
    obtain ⟨⟨shell, wave, sent⟩, htask, rfl⟩ :=
      Option.map_eq_some_iff.mp (orFault_eq_next_iff.mp hnext)
    rw [← status_waveReportTask htask] at h
    exact h
  | frame handler p_pack p_data my_printf stack =>
    obtain ⟨⟨shell, sent⟩, hact, rfl⟩ := Option.map_eq_some_iff.mp (orFault_eq_next_iff.mp hnext)
    cases handler with
    | read =>
      have heq := Option.some.inj ((readDataAct_eq hspares).symm.trans hact)
      rw [← status_readDataAct items p_pack p_data my_printf s.console.shell, heq] at h
      exact h
    | write =>
      have heq := Option.some.inj ((writeDataAct_eq hspares).symm.trans hact)
      rw [← status_writeDataAct items p_pack p_data my_printf s.console.shell, heq] at h
      exact h
    | waveEnable =>
      have heq := Option.some.inj hact
      have hkept := h.waveParamEnableAct my_printf stack hspares
      unfold Handler.act at heq
      dsimp only at heq
      rw [heq] at hkept
      exact hkept
    | waveStart =>
      have heq := Option.some.inj hact
      unfold Handler.act waveStartAct at heq
      dsimp only at heq
      split at heq
      · exact congrArg (·.1.status) heq ▸ h
      · exact congrArg (·.1.status) heq ▸ h
    | wavePeriod =>
      have heq := Option.some.inj hact
      unfold Handler.act wavePeriodAct at heq
      dsimp only at heq
      split at heq
      · exact congrArg (·.1.status) heq ▸ h
      · exact congrArg (·.1.status) heq ▸ h

/-- A run ends in a fault at an event that dereferences a pointer of a command, if at all. -/
theorem run_eq_fault_iff {es : List Event} {s : System} :
    run T items es s = .fault ↔ ∃ front e back t, es = front ++ e :: back ∧
      run T items front s = .next t ∧ Dereferences items t e := by
  induction es generalizing s with
  | nil =>
    refine iff_of_false nofun ?_
    rintro ⟨front, e, back, t, hes, -⟩
    simp at hes
  | cons e es ih =>
    constructor
    · intro hrun
      unfold run at hrun
      cases hexec : exec T items s e with
      | next t =>
        rw [hexec] at hrun
        obtain ⟨front, e', back, u, rfl, hfront, hderef⟩ := ih.mp hrun
        refine ⟨e :: front, e', back, u, rfl, ?_, hderef⟩
        unfold run
        rw [hexec]
        exact hfront
      | fault => exact ⟨[], e, es, s, rfl, rfl, (exec_eq_fault_iff T).mp hexec⟩
      | hang =>
        rw [hexec] at hrun
        exact nomatch hrun
    · rintro ⟨front, e', back, t, hes, hfront, hderef⟩
      unfold run
      cases front with
      | nil =>
        obtain ⟨rfl, rfl⟩ := List.cons.inj hes
        obtain rfl := Outcome.next.inj hfront
        rw [(exec_eq_fault_iff T).mpr hderef]
      | cons e'' front =>
        obtain ⟨rfl, rfl⟩ := List.cons.inj hes
        unfold run at hfront
        cases hexec : exec T items s e with
        | next u =>
          rw [hexec] at hfront
          exact ih.mpr ⟨front, e', back, t, rfl, hfront, hderef⟩
        | fault => rfl
        | hang =>
          rw [hexec] at hfront
          exact nomatch hfront

theorem Unmarked.run {es : List Event} {s : System} (h : Unmarked items s.console.shell.status)
    (hspares : ∀ e ∈ es, e.Spares T items) : Shell.run T items es s ≠ .fault := by
  induction es generalizing s with
  | nil => exact nofun
  | cons e es ih =>
    have he := hspares e List.mem_cons_self
    unfold Shell.run
    cases hexec : Shell.exec T items s e with
    | next t => exact ih (h.exec he hexec) fun e' he' => hspares e' (List.mem_cons_of_mem e he')
    | fault => exact absurd ((exec_eq_fault_iff T).mp hexec) (h.not_dereferences T he)
    | hang => exact nofun

end

/-- **Commands are spared** in every run whose events neither read nor write a command nor mark
one for the wave. In every run, a fault comes only from a read or a write of a command, or from
the wave task at a marked command. -/
theorem commands_spared {F : Type} (T : Target F) (items : List Item) (es : List Event)
    (s : System) :
    (Started items s → (∀ e ∈ es, e.Spares T items) → run T items es s ≠ .fault) ∧
    (run T items es s = .fault ↔ ∃ front e back t, es = front ++ e :: back ∧
      run T items front s = .next t ∧ Dereferences items t e) :=
  ⟨fun hs hspares => hs.unmarked.run hspares, run_eq_fault_iff⟩

/-- The tasks at the start -/
def System.zero : System where
  console := .zero
  report := ⟨false, 0, 0, 0, 0, 0, 0, 0, 0, 0⟩
  wave := ⟨.idle, 0, 0, 0⟩
  sent := []

/-- A variable of one byte, its limits behind it -/
def byteVariable (p_name : List UInt8) (h : p_name.length ≤ strSizeMax) : Item where
  p_name := p_name
  p_var := 0
  type := .uint8
  p_max := 4
  p_min := 8
  func := none
  p_name_size_le := h

/-- The variable `V` and the command `R` -/
def mixedItems : List Item :=
  [byteVariable ['V'.toUInt8] (by decide), command ['R'.toUInt8] (by decide)]

/-- A frame with this payload. -/
def request (handler : Handler) (p_data : List UInt8) : Event :=
  .frame handler ⟨0xE8, 0, 1, 0, 2, 0, 1, 0, 0, UInt16.ofNat p_data.length, 0, 0, 0⟩
    (Memory.write (fun _ => 0) 0 p_data) 0 0

theorem started_zero : Started mixedItems .zero := ⟨fun _ _ _ _ => rfl, rfl, rfl, rfl⟩

/-- The variable is selected, the wave is started and runs, and the variable is read. -/
theorem commands_spared_demo :
    run singleTarget mixedItems
      ([request .waveEnable [1, 1, 'V'.toUInt8], request .waveStart [1]] ++
        List.replicate 20 Event.waveReport ++ [request .read [1, 'V'.toUInt8]]) .zero ≠ .fault := by
  refine (commands_spared singleTarget mixedItems _ .zero).1 started_zero fun e he => ?_
  rw [List.mem_append, List.mem_append, List.mem_replicate] at he
  have hvariable (p_data : Memory UInt8) (p_name : ℕ)
      (hfound : (shellFind mixedItems p_data p_name (p_data 0)).map (·.1.type) = some .uint8)
      (p : Item) (i : ℕ) (h : shellFind mixedItems p_data p_name (p_data 0) = some (p, i)) :
      p.type ≠ .cmd := by
    rw [h] at hfound
    have htype : p.type = .uint8 := Option.some.inj hfound
    rw [htype]
    exact nofun
  rcases he with (hsetup | ⟨-, rfl⟩) | hread
  · rcases List.mem_cons.mp hsetup with rfl | hstart
    · exact fun _ _ => hvariable _ 2 (by decide)
    · rw [List.mem_singleton.mp hstart]
      trivial
  · trivial
  · rw [List.mem_singleton.mp hread]
    exact fun _ => hvariable _ 1 (by decide)

/-- The command `R` is read, it is written, and it is sent in the wave after a request or after the
line `R:-s 4`. -/
theorem commands_not_spared : Started mixedItems .zero ∧
    run singleTarget mixedItems [request .read [1, 'R'.toUInt8]] .zero = .fault ∧
    run singleTarget mixedItems
      [request .write [1, 0, 0, 0, 0, 0, 0, 0, 0, 0, 0, 0, 0, 'R'.toUInt8]] .zero = .fault ∧
    run singleTarget mixedItems
      ([request .waveEnable [1, 1, 'R'.toUInt8], request .waveStart [1]] ++
        List.replicate 13 Event.waveReport) .zero = .fault ∧
    run singleTarget mixedItems
      ([.text ("R:-s 4".toList.map Char.toUInt8) 0, request .waveStart [1]] ++
        List.replicate 13 Event.waveReport) .zero = .fault :=
  ⟨started_zero, rfl, rfl, rfl, rfl⟩

end Atoman.Shell
