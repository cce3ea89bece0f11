import Atoman.Lib.Rotation
import Mathlib.Data.List.Basic

/-!
# The time-share table

`time_share_func` counts a call for every entry of a table and, once in ten calls, runs the
callback of an entry whose period is over. It looks for one from the entry after the last that
it looked at.
-/

namespace Atoman.TimeShare
universe u

/-- `time_share_func_table_t` -/
structure FuncTable (φ : Type u) where
  func : φ
  period : ℕ
  cnt : ℕ
deriving DecidableEq

/-- A callback that runs, and the entry that it runs for. -/
structure Call (φ : Type u) where
  entry : ℕ
  func : φ
deriving DecidableEq

end TimeShare

/-- `time_share_t`, with what `p_func_table` leads to, if it is not null -/
structure TimeShare (φ : Type u) where
  func_table : Option (List (TimeShare.FuncTable φ))
  table_size : ℕ
  table_index : ℕ
  idle_dn_cnt : ℕ
deriving DecidableEq

namespace TimeShare
variable {φ : Type u}

/-- `time_share_init` -/
def init (_p_str : TimeShare φ) (p_func_table : Option (List (FuncTable φ))) (table_size : ℕ) :
    TimeShare φ :=
  { func_table := p_func_table, table_size := table_size, idle_dn_cnt := 0, table_index := 0 }

/-- The first loop of `time_share_func` -/
def count (table_size : ℕ) (table : List (FuncTable φ)) : List (FuncTable φ) :=
  table.mapIdx fun i e => if i < table_size then { e with cnt := (e.cnt + 1) % 2 ^ 32 } else e

/-- The second loop of `time_share_func`, `i` times at most, and the callback that it runs -/
def dispatch (p_str : TimeShare φ) (table : List (FuncTable φ)) :
    ℕ → TimeShare φ × Option (Call φ)
  | 0 => ({ p_str with func_table := some table }, none)
  | i + 1 =>
    let p_str := { p_str with table_index := (p_str.table_index + 1) % p_str.table_size }
    match table[p_str.table_index]? with
    | none => p_str.dispatch table i
    | some e =>
      if e.cnt ≥ e.period then
        ({ p_str with
            func_table := some (table.set p_str.table_index { e with cnt := 0 })
            idle_dn_cnt := 9 },
          some ⟨p_str.table_index, e.func⟩)
      else p_str.dispatch table i

/-- `time_share_func`, and the callback that it runs -/
def func (p_str : TimeShare φ) : TimeShare φ × Option (Call φ) :=
  match p_str.func_table with
  | none => (p_str, none)
  | some table =>
    let table := count p_str.table_size table
    if p_str.idle_dn_cnt = 0 then p_str.dispatch table p_str.table_size
    else ({ p_str with func_table := some table, idle_dn_cnt := p_str.idle_dn_cnt - 1 }, none)

/-! ## The table under a call -/

/-- The period of an entry is over. -/
def due (table : List (FuncTable φ)) (i : ℕ) : Bool :=
  table[i]?.any fun e => e.cnt ≥ e.period

theorem due_eq_true {table : List (FuncTable φ)} {i : ℕ} :
    due table i = true ↔ ∃ e, table[i]? = some e ∧ e.period ≤ e.cnt := by
  rw [due]
  cases table[i]? with
  | none => simp
  | some e => simp

@[simp] theorem length_count (k : ℕ) (table : List (FuncTable φ)) :
    (count k table).length = table.length := by
  simp [count]

/-- Every entry of the table counts. -/
theorem getElem?_count (table : List (FuncTable φ)) (i : ℕ) :
    (count table.length table)[i]? =
      table[i]?.map fun e => { e with cnt := (e.cnt + 1) % 2 ^ 32 } := by
  rw [count, List.getElem?_mapIdx]
  cases h : table[i]? with
  | none => rfl
  | some e =>
    have hi : i < table.length := (List.getElem?_eq_some_iff.mp h).1
    simp [hi]

/-- The loop searches the table for an entry that is due. -/
theorem dispatch_eq (p_str : TimeShare φ) (table : List (FuncTable φ)) (k : ℕ) :
    p_str.dispatch table k =
      match Lib.Rotation.search (due table) p_str.table_size k p_str.table_index with
      | (i, false) => ({ p_str with func_table := some table, table_index := i }, none)
      | (i, true) =>
        ({ p_str with
            func_table := some (table.modify i fun e => { e with cnt := 0 })
            table_index := i, idle_dn_cnt := 9 },
          table[i]?.map fun e => ⟨i, e.func⟩) := by
  induction k generalizing p_str with
  | zero => rfl
  | succ k ih =>
    rw [dispatch, Lib.Rotation.search]
    cases h : table[(p_str.table_index + 1) % p_str.table_size]? with
    | none => simp [h, due, ih]
    | some e =>
      by_cases hdue : e.cnt ≥ e.period
      · simp [h, due, hdue, List.modify_eq_set_getElem?]
      · simp [h, due, hdue, ih]

end TimeShare
end Atoman
