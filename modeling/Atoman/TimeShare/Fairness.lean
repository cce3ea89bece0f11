import Atoman.TimeShare.Table

/-!
# Every entry has its turn

An entry that is due waits for the search to come round to it. The places that are left, ten
calls each, and the calls until the next search bound its counter.
-/

namespace Atoman.TimeShare
universe u
variable {φ : Type u} {p_str : TimeShare φ} {table : List (FuncTable φ)}

/-! ## One call -/

/-- The entries of a table, each with its counter after a call that ran `call`. -/
def counted (call : Option (Call φ)) (table : List (FuncTable φ)) : List (FuncTable φ) :=
  match call with
  | none => count table.length table
  | some c => (count table.length table).modify c.entry fun e => { e with cnt := 0 }

@[simp] theorem length_counted (call : Option (Call φ)) :
    (counted call table).length = table.length := by
  cases call <;> simp [counted]

/-- An entry after a call: its counter starts again, or it counts the call. -/
theorem getElem?_counted (call : Option (Call φ)) (i : ℕ) :
    (counted call table)[i]? = table[i]?.map fun e =>
      { e with cnt := if call.map Call.entry = some i then 0 else (e.cnt + 1) % 2 ^ 32 } := by
  cases call with
  | none => simp [counted, getElem?_count]
  | some c =>
    rw [counted, List.getElem?_modify, getElem?_count]
    by_cases hi : c.entry = i
    · cases table[i]? <;> simp [hi]
    · cases table[i]? <;> simp [hi]

/-- What a call does with a table. -/
inductive Moves (p_str : TimeShare φ) (table : List (FuncTable φ)) :
    TimeShare φ → Option (Call φ) → Prop
  | wait (busy : p_str.idle_dn_cnt ≠ 0) :
    Moves p_str table
      { p_str with
        func_table := some (counted none table), idle_dn_cnt := p_str.idle_dn_cnt - 1 } none
  | idle (free : p_str.idle_dn_cnt = 0)
    (rest : ∀ i < table.length, due (count table.length table) i = false) :
    Moves p_str table
      { p_str with
        func_table := some (counted none table)
        table_index := (p_str.table_index + table.length) % table.length } none
  | run (free : p_str.idle_dn_cnt = 0) (m : ℕ) (e : FuncTable φ)
    (stops : Lib.Rotation.Stops (due (count table.length table)) table.length p_str.table_index
      table.length m)
    (entry : (count table.length table)[(p_str.table_index + m) % table.length]? = some e) :
    Moves p_str table
      { p_str with
        func_table := some (counted (some ⟨(p_str.table_index + m) % table.length, e.func⟩) table)
        table_index := (p_str.table_index + m) % table.length, idle_dn_cnt := 9 }
      (some ⟨(p_str.table_index + m) % table.length, e.func⟩)
  | nothing (free : p_str.idle_dn_cnt = 0) (empty : table = []) :
    Moves p_str table { p_str with func_table := some (counted none table) } none

/-- What `time_share_func` does. -/
theorem func_moves (htable : p_str.func_table = some table)
    (hsize : p_str.table_size = table.length)
    (hindex : 0 < table.length → p_str.table_index < table.length) :
    Moves p_str table p_str.func.1 p_str.func.2 := by
  obtain ⟨func_table, table_size, table_index, idle_dn_cnt⟩ := p_str
  subst htable hsize
  simp only [func]
  by_cases hfree : idle_dn_cnt = 0
  · rw [if_pos hfree, dispatch_eq]
    by_cases hpos : 0 < table.length
    · rcases Lib.Rotation.search_spec (due (count table.length table)) table.length table_index
        (hindex hpos) with ⟨m, hstops, heq⟩ | ⟨hnone, heq⟩
      · obtain ⟨e, he, -⟩ := due_eq_true.mp hstops.stop
        simp only [heq, he, Option.map_some]
        exact .run hfree m e hstops he
      · simp only [heq]
        refine .idle hfree ?_
        intro i hi
        obtain ⟨m, hm⟩ := Lib.Rotation.exists_ahead table_index hi
        rw [← hm.place]
        exact hnone m hm.pos hm.le
    · have hempty : table = [] := List.eq_nil_of_length_eq_zero (by omega)
      subst hempty
      exact .nothing hfree rfl
  · rw [if_neg hfree]
    exact .wait hfree

/-- A callback that runs is that of an entry whose period is over. -/
theorem Moves.ran {p_str' : TimeShare φ} {c : Call φ} (h : Moves p_str table p_str' (some c)) :
    ∃ e, (count table.length table)[c.entry]? = some e ∧ c.func = e.func ∧ e.period ≤ e.cnt := by
  cases h with
  | run free m e stops entry =>
    obtain ⟨e', he', hdue⟩ := due_eq_true.mp stops.stop
    rw [entry] at he'
    obtain rfl := Option.some.inj he'
    exact ⟨e, entry, rfl, hdue⟩

/-- A callback runs when the countdown is over. -/
theorem Moves.free {p_str' : TimeShare φ} {c : Call φ} (h : Moves p_str table p_str' (some c)) :
    p_str.idle_dn_cnt = 0 := by
  cases h with
  | run free => exact free

/-- A call counts down, and starts again with a callback. -/
theorem Moves.countdown {p_str' : TimeShare φ} {call : Option (Call φ)}
    (h : Moves p_str table p_str' call) :
    p_str'.idle_dn_cnt = if call.isSome then 9 else p_str.idle_dn_cnt - 1 := by
  cases h with
  | wait => rfl
  | idle free => simp [free]
  | run => rfl
  | nothing free => simp [free]

/-! ## What holds between the calls -/

/-- The counter of an entry that is due leaves room for the calls until its turn. -/
def Waits (n index idle : ℕ) (i : ℕ) (e : FuncTable φ) : Prop :=
  e.period ≤ e.cnt → ∃ m, Lib.Rotation.Ahead n index m i ∧
    e.cnt + idle + 10 * m < e.period + 10 * n + 10

/-- The state of a time share over the table that it was given. -/
structure Inv (given : List (FuncTable φ)) (p_str : TimeShare φ) (table : List (FuncTable φ)) :
    Prop where
  held : p_str.func_table = some table
  size : p_str.table_size = table.length
  index : 0 < table.length → p_str.table_index < table.length
  idle : p_str.idle_dn_cnt ≤ 9
  same : table.map (fun e => (e.func, e.period)) = given.map fun e => (e.func, e.period)
  waits : ∀ i e, table[i]? = some e → Waits table.length p_str.table_index p_str.idle_dn_cnt i e

variable {given : List (FuncTable φ)}

theorem Inv.length (h : Inv given p_str table) : table.length = given.length := by
  simpa using congrArg List.length h.same

/-- An entry of the table is the one given, but for its counter. -/
theorem Inv.entry (h : Inv given p_str table) {i : ℕ} {e : FuncTable φ} (he : table[i]? = some e) :
    ∃ cnt, given[i]? = some { e with cnt := cnt } := by
  have hsame := congrArg (·[i]?) h.same
  simp only [List.getElem?_map, he, Option.map_some] at hsame
  obtain ⟨e', he', heq⟩ := Option.map_eq_some_iff.mp hsame.symm
  obtain ⟨hfunc, hperiod⟩ := Prod.mk.inj heq
  refine ⟨e'.cnt, ?_⟩
  rw [he', ← hfunc, ← hperiod]

/-- The counter of an entry stays below its period and ten calls for each entry. -/
theorem Waits.lt {n index idle i : ℕ} {e : FuncTable φ} (h : Waits n index idle i e) (hi : i < n) :
    e.cnt < e.period + 10 * n := by
  by_cases hdue : e.period ≤ e.cnt
  · obtain ⟨m, hm, hlt⟩ := h hdue
    have hpos := hm.pos
    omega
  · omega

/-- The counters that the table is given with, and the room that they need. -/
structure Ready (given : List (FuncTable φ)) : Prop where
  zero : ∀ e ∈ given, e.cnt = 0
  room : ∀ e ∈ given, e.period + 10 * given.length < 2 ^ 32

theorem Ready.inv (h : Ready given) (p_str : TimeShare φ) :
    Inv given (init p_str (some given) given.length) given where
  held := rfl
  size := rfl
  index := id
  idle := Nat.zero_le _
  same := rfl
  waits := by
    intro i e he _
    have hi : i < given.length := (List.getElem?_eq_some_iff.mp he).1
    obtain ⟨m, hm⟩ := Lib.Rotation.exists_ahead 0 hi
    refine ⟨m, hm, ?_⟩
    have hle := hm.le
    simp only [init, h.zero e (List.mem_of_getElem? he)]
    omega

/-- The counter of an entry does not wrap. -/
theorem Inv.cnt_succ (h : Inv given p_str table) (hready : Ready given) {i : ℕ} {e : FuncTable φ}
    (he : table[i]? = some e) : (e.cnt + 1) % 2 ^ 32 = e.cnt + 1 := by
  have hi : i < table.length := (List.getElem?_eq_some_iff.mp he).1
  obtain ⟨cnt, hgiven⟩ := h.entry he
  have hroom := hready.room _ (List.mem_of_getElem? hgiven)
  have hlt := (h.waits i e he).lt hi
  have hlen := h.length
  refine Nat.mod_eq_of_lt ?_
  simp only at hroom
  omega

/-- What a call leaves of the counters. -/
theorem Inv.waits_moves {p_str' : TimeShare φ} {call : Option (Call φ)} (h : Inv given p_str table)
    (hready : Ready given) (hmoves : Moves p_str table p_str' call) {i : ℕ} {e : FuncTable φ}
    (he : (counted call table)[i]? = some e) :
    Waits table.length p_str'.table_index p_str'.idle_dn_cnt i e := by
  rw [getElem?_counted] at he
  obtain ⟨e₀, h₀, rfl⟩ := Option.map_eq_some_iff.mp he
  have hi : i < table.length := (List.getElem?_eq_some_iff.mp h₀).1
  have hlt := h.index (by omega)
  have hsucc := h.cnt_succ hready h₀
  have hwaits := h.waits i e₀ h₀
  intro hdue
  rw [hsucc] at hdue ⊢
  cases hmoves with
  | wait busy =>
    simp only [Option.map_none, reduceCtorEq, if_false] at hdue ⊢
    by_cases hover : e₀.period ≤ e₀.cnt
    · obtain ⟨m, hm, hroom⟩ := hwaits hover
      exact ⟨m, hm, by omega⟩
    · obtain ⟨m, hm⟩ := Lib.Rotation.exists_ahead p_str.table_index hi
      have hle := hm.le
      have hidle := h.idle
      exact ⟨m, hm, by omega⟩
  | idle free rest =>
    simp only [Option.map_none, reduceCtorEq, if_false] at hdue
    have hnot := rest i hi
    rw [← Bool.not_eq_true, due_eq_true, getElem?_count, h₀] at hnot
    simp at hnot
    omega
  | run free m ran stops entry =>
    simp only [Option.map_some, Option.some.injEq] at hdue ⊢
    have hturn : (p_str.table_index + m) % table.length < table.length :=
      Nat.mod_lt _ (by omega)
    by_cases heq : (p_str.table_index + m) % table.length = i
    · -- the entry that ran waits for a whole turn at most
      rw [if_pos heq]
      obtain ⟨d, hd⟩ := Lib.Rotation.exists_ahead ((p_str.table_index + m) % table.length) hi
      have hle := hd.le
      exact ⟨d, hd, by omega⟩
    · rw [if_neg heq] at hdue ⊢
      by_cases hover : e₀.period ≤ e₀.cnt
      · obtain ⟨d, hd, hroom⟩ := hwaits hover
        have hasks : due (count table.length table) i = true := by
          rw [due_eq_true, getElem?_count, h₀]
          exact ⟨_, rfl, by simp only [hsucc]; omega⟩
        have hle := stops.le_ahead hd hasks
        have hlt : m < d := by
          refine lt_of_le_of_ne hle ?_
          rintro rfl
          exact heq hd.place
        have hpos := stops.pos
        exact ⟨d - m, hd.move hlt, by omega⟩
      · obtain ⟨d, hd⟩ := Lib.Rotation.exists_ahead ((p_str.table_index + m) % table.length) hi
        have hless := hd.lt_of_ne hturn heq
        exact ⟨d, hd, by omega⟩
  | nothing free empty =>
    subst empty
    simp at hi

/-- A call keeps the state sound, and its table is the one before, counted. -/
theorem Inv.func (h : Inv given p_str table) (hready : Ready given) :
    Inv given p_str.func.1 (counted p_str.func.2 table) := by
  have hmoves := func_moves h.held h.size h.index
  generalize p_str.func.1 = p_str' at hmoves ⊢
  generalize p_str.func.2 = call at hmoves ⊢
  have hsame : (counted call table).map (fun e => (e.func, e.period)) =
      table.map fun e => (e.func, e.period) := by
    refine List.ext_getElem? fun i => ?_
    rw [List.getElem?_map, List.getElem?_map, getElem?_counted, Option.map_map]
    rfl
  refine ⟨?_, ?_, ?_, ?_, hsame.trans h.same, ?_⟩
  · cases hmoves <;> rfl
  · rw [length_counted, ← h.size]
    cases hmoves <;> rfl
  · intro hpos
    rw [length_counted] at hpos ⊢
    cases hmoves with
    | wait => exact h.index hpos
    | idle => exact Nat.mod_lt _ hpos
    | run => exact Nat.mod_lt _ hpos
    | nothing => exact h.index hpos
  · have hidle := h.idle
    cases hmoves with
    | wait => exact (Nat.sub_le _ _).trans hidle
    | idle => exact hidle
    | run => exact le_rfl
    | nothing => exact hidle
  · intro i e he
    rw [length_counted]
    exact h.waits_moves hready hmoves he

/-! ## Calls one after the other -/

/-- The state after `k` calls -/
def after (p_str : TimeShare φ) (k : ℕ) : TimeShare φ := (fun s => s.func.1)^[k] p_str

/-- The callback that runs in the call after `k` calls -/
def call (p_str : TimeShare φ) (k : ℕ) : Option (Call φ) := (p_str.after k).func.2

theorem after_succ (k : ℕ) : p_str.after (k + 1) = (p_str.after k).func.1 :=
  Function.iterate_succ_apply' _ _ _

/-- The table after `k` calls -/
def tableAfter (p_str : TimeShare φ) (given : List (FuncTable φ)) : ℕ → List (FuncTable φ)
  | 0 => given
  | k + 1 => counted (p_str.call k) (tableAfter p_str given k)

section Run
variable (hready : Ready given) (hinv : Inv given p_str given)
include hready hinv

theorem inv_after (k : ℕ) : Inv given (p_str.after k) (p_str.tableAfter given k) := by
  induction k with
  | zero => exact hinv
  | succ k ih =>
    rw [after_succ]
    exact ih.func hready

/-- The counter of an entry from one call to the next. -/
theorem before {i k : ℕ} {e : FuncTable φ} (he : (p_str.tableAfter given (k + 1))[i]? = some e) :
    ∃ e₀, (p_str.tableAfter given k)[i]? = some e₀ ∧
      e.cnt = if (p_str.call k).map Call.entry = some i then 0 else e₀.cnt + 1 := by
  rw [tableAfter, getElem?_counted] at he
  obtain ⟨e₀, h₀, rfl⟩ := Option.map_eq_some_iff.mp he
  rw [(inv_after hready hinv k).cnt_succ hready h₀]
  exact ⟨e₀, h₀, rfl⟩

omit hready hinv in
/-- The entries stay in the table. -/
theorem entry_tableAfter {i : ℕ} {e : FuncTable φ} (he : given[i]? = some e) (k : ℕ) :
    ∃ cnt, (p_str.tableAfter given k)[i]? = some { e with cnt := cnt } := by
  induction k with
  | zero => exact ⟨e.cnt, he⟩
  | succ k ih =>
    obtain ⟨cnt, ih⟩ := ih
    rw [tableAfter, getElem?_counted, ih]
    exact ⟨_, rfl⟩

theorem moves_after (k : ℕ) :
    Moves (p_str.after k) (p_str.tableAfter given k) (p_str.after (k + 1)) (p_str.call k) := by
  have h := inv_after hready hinv k
  rw [after_succ]
  exact func_moves h.held h.size h.index

/-- The callback of a call is that of an entry whose period is over by then. -/
theorem call_due {k : ℕ} {c : Call φ} (hcall : p_str.call k = some c) :
    ∃ e, (p_str.tableAfter given k)[c.entry]? = some e ∧ c.func = e.func ∧
      e.period ≤ e.cnt + 1 := by
  have hmoves := moves_after hready hinv k
  rw [hcall] at hmoves
  obtain ⟨e, he, hfunc, hdue⟩ := hmoves.ran
  rw [getElem?_count] at he
  obtain ⟨e₀, h₀, rfl⟩ := Option.map_eq_some_iff.mp he
  rw [(inv_after hready hinv k).cnt_succ hready h₀] at hdue
  exact ⟨e₀, h₀, hfunc, hdue⟩

/-- A counter that has not started again has counted the calls. -/
theorem le_cnt {i k : ℕ} (n : ℕ) {e : FuncTable φ}
    (he : (p_str.tableAfter given (k + n))[i]? = some e)
    (hnot : ∀ j < n, (p_str.call (k + j)).map Call.entry ≠ some i) : n ≤ e.cnt := by
  induction n generalizing e with
  | zero => exact Nat.zero_le _
  | succ n ih =>
    obtain ⟨e₀, h₀, hcnt⟩ := before (k := k + n) hready hinv he
    rw [if_neg (hnot n (Nat.lt_succ_self n))] at hcnt
    have hle := ih h₀ fun j hj => hnot j (Nat.lt_succ_of_lt hj)
    omega

/-- Since the call that ran the entry, the counter has counted the later ones at most. -/
theorem cnt_le {i j : ℕ} (n : ℕ) {e : FuncTable φ}
    (he : (p_str.tableAfter given (j + 1 + n))[i]? = some e)
    (hrun : (p_str.call j).map Call.entry = some i) : e.cnt ≤ n := by
  induction n generalizing e with
  | zero =>
    obtain ⟨e₀, -, hcnt⟩ := before hready hinv he
    rw [if_pos hrun] at hcnt
    exact hcnt.le
  | succ n ih =>
    obtain ⟨e₀, h₀, hcnt⟩ := before hready hinv he
    have hle := ih h₀
    split at hcnt <;> omega

/-- The countdown that a callback starts goes on for nine calls. -/
theorem le_idle {j : ℕ} (hrun : (p_str.call j).isSome = true) (n : ℕ) (hn : n ≤ 9) :
    9 - n ≤ (p_str.after (j + 1 + n)).idle_dn_cnt := by
  induction n with
  | zero =>
    have hcount := (moves_after hready hinv j).countdown
    rw [if_pos hrun] at hcount
    exact hcount.ge
  | succ n ih =>
    have hcount := (moves_after hready hinv (j + 1 + n)).countdown
    have hle := ih (by omega)
    rw [← Nat.add_assoc, hcount]
    split <;> omega

end Run

/-- Every entry of the table has its turn, in time and no sooner. -/
structure Fair (given : List (FuncTable φ)) (p_str : TimeShare φ) : Prop where
  bounded : ∀ k, ∃ table, (p_str.after k).func_table = some table ∧ table.length = given.length ∧
    ∀ (i : ℕ) (e : FuncTable φ), given[i]? = some e →
      ∃ cnt, table[i]? = some { e with cnt := cnt } ∧ cnt < e.period + 10 * given.length
  served : ∀ (i : ℕ) (e : FuncTable φ), given[i]? = some e → ∀ k, ∃ j, k ≤ j ∧
    j < k + (e.period + 10 * given.length) ∧ p_str.call j = some ⟨i, e.func⟩
  spaced : ∀ (i : ℕ) (e : FuncTable φ), given[i]? = some e → ∀ j k, j < k →
    (p_str.call j).map Call.entry = some i → (p_str.call k).map Call.entry = some i →
    j + e.period ≤ k
  apart : ∀ j k, j < k → (p_str.call j).isSome = true → (p_str.call k).isSome = true → j + 10 ≤ k

/-- No entry of a table is starved: its counter stays below its period and ten calls for each
entry, so its callback runs that often at least. -/
theorem starves_none (p_str : TimeShare φ) (hready : Ready given) :
    Fair given (init p_str (some given) given.length) := by
  have hinv := hready.inv p_str
  generalize init p_str (some given) given.length = p_str at hinv ⊢
  have hbounded : ∀ (i : ℕ) (e : FuncTable φ), given[i]? = some e → ∀ k, ∃ cnt,
      (p_str.tableAfter given k)[i]? = some { e with cnt := cnt } ∧
        cnt < e.period + 10 * given.length := by
    intro i e he k
    have h := inv_after hready hinv k
    obtain ⟨cnt, hcnt⟩ := entry_tableAfter he k
    have hi : i < (p_str.tableAfter given k).length := (List.getElem?_eq_some_iff.mp hcnt).1
    have hlt := (h.waits i _ hcnt).lt hi
    rw [h.length] at hlt
    exact ⟨cnt, hcnt, hlt⟩
  refine ⟨?bounded, ?served, ?spaced, ?apart⟩
  case bounded =>
    intro k
    have h := inv_after hready hinv k
    exact ⟨_, h.held, h.length, fun i e he => hbounded i e he k⟩
  case served =>
    intro i e he k
    by_contra hnot
    have hnever : ∀ j < e.period + 10 * given.length,
        (p_str.call (k + j)).map Call.entry ≠ some i := by
      intro j hj hrun
      obtain ⟨c, hcall, hentry⟩ := Option.map_eq_some_iff.mp hrun
      obtain ⟨e', he', hfunc, -⟩ := call_due hready hinv hcall
      obtain ⟨cnt, hcnt, -⟩ := hbounded i e he (k + j)
      rw [hentry, hcnt] at he'
      obtain rfl := Option.some.inj he'
      refine hnot ⟨k + j, by omega, by omega, ?_⟩
      rw [hcall, ← hentry, ← hfunc]
    obtain ⟨cnt, hcnt, hlt⟩ := hbounded i e he (k + (e.period + 10 * given.length))
    have hle := le_cnt hready hinv _ hcnt hnever
    simp only at hle
    omega
  case spaced =>
    intro i e he j k hjk hj hk
    obtain ⟨c, hcall, hentry⟩ := Option.map_eq_some_iff.mp hk
    obtain ⟨e', he', -, hdue⟩ := call_due hready hinv hcall
    obtain ⟨cnt, hcnt, -⟩ := hbounded i e he k
    rw [hentry, hcnt] at he'
    obtain rfl := Option.some.inj he'
    obtain ⟨n, rfl⟩ : ∃ n, k = j + 1 + n := ⟨k - (j + 1), by omega⟩
    have hle := cnt_le hready hinv n hcnt hj
    simp only at hle hdue
    omega
  case apart =>
    intro j k hjk hj hk
    obtain ⟨c, hcall⟩ := Option.isSome_iff_exists.mp hk
    have hmoves := moves_after hready hinv k
    rw [hcall] at hmoves
    have hfree := hmoves.free
    by_contra hlt
    obtain ⟨n, rfl⟩ : ∃ n, k = j + 1 + n := ⟨k - (j + 1), by omega⟩
    have hle := le_idle hready hinv hj n (by omega)
    omega

/-- Two entries, one of them without a period -/
theorem starves_none_of_two :
    Ready [⟨'a', 0, 0⟩, ⟨'b', 3, 0⟩] ∧
      Fair [⟨'a', 0, 0⟩, ⟨'b', 3, 0⟩] (init ⟨none, 0, 0, 0⟩ (some [⟨'a', 0, 0⟩, ⟨'b', 3, 0⟩]) 2) :=
  have hready : Ready [⟨'a', 0, 0⟩, ⟨'b', 3, 0⟩] := ⟨by simp, by simp⟩
  ⟨hready, starves_none ⟨none, 0, 0, 0⟩ hready⟩

end TimeShare
end Atoman
