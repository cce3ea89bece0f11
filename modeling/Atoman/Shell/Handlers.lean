import Atoman.Lib.Memory
import Atoman.Comm.Network
import Atoman.Lib.LittleEndian

/-!
# The shell registry and its handlers

An item is a command or a variable of a type with a width of its own. The registration
macro gives every variable two limit objects of its type, and bounds the name.

A handler gets the header of a frame, and the buffer that the payload is in: the bytes
behind the payload are there too, whatever they are. A reply is what `comm_send_data` gets.
-/

namespace Atoman.Shell
open Comm (Packet)
open Lib (Memory)

/-- `SHELL_STR_SIZE_MAX` -/
def strSizeMax : ℕ := 40

/-- `SHELL_TYPE_E` -/
inductive ShellType
  | int8 | uint8 | int16 | uint16 | int32 | uint32 | fp32 | cmd
deriving DecidableEq

namespace ShellType

/-- The number of the type in a frame. -/
def code : ShellType → UInt8
  | int8 => 0
  | uint8 => 1
  | int16 => 2
  | uint16 => 3
  | int32 => 4
  | uint32 => 5
  | fp32 => 6
  | cmd => 7

/-- The bytes of a value. -/
def size : ShellType → ℕ
  | int8 | uint8 => 1
  | int16 | uint16 => 2
  | int32 | uint32 | fp32 => 4
  | cmd => 0

theorem size_le (type : ShellType) : type.size ≤ 4 := by cases type <;> decide

end ShellType

/-- `shell_core_item_t`, without the status. A callback is what it does to the memory. -/
structure Item where
  p_name : List UInt8
  p_var : ℕ
  type : ShellType
  p_max : ℕ
  p_min : ℕ
  func : Option (Memory UInt8 → Memory UInt8)
  /-- the assertion of the registration macro -/
  p_name_size_le : p_name.length ≤ strSizeMax

namespace Item

/-- The cells of the value and of the limits. -/
def cells (p : Item) : Set ℕ :=
  {a | ∃ object ∈ [p.p_var, p.p_max, p.p_min], ∃ k < p.type.size, a = object + k}

/-- `p->func`, where there is one -/
def call (p : Item) (m : Memory UInt8) : Memory UInt8 := (p.func.getD id) m

/-- `memcpy` to the variable and its limits, at the width of the type; a command has no bytes -/
def store (p : Item) (data data_max data_min : List UInt8) (m : Memory UInt8) : Memory UInt8 :=
  ((m.write p.p_var (data.take p.type.size)).write p.p_max (data_max.take p.type.size)).write
    p.p_min (data_min.take p.type.size)

end Item

/-- The cells of all values and limits. -/
def cellsOf (items : List Item) : Set ℕ := {a | ∃ p ∈ items, a ∈ p.cells}

/-- The registered items. A callback works on registered variables only. -/
structure Registry where
  items : List Item
  func_confined : ∀ p ∈ items, Memory.Confined (cellsOf items) p.call

/-- `shell_find`, with the place of the item -/
def shellFind (items : List Item) (p_data : Memory UInt8) (p_name : ℕ) (len : UInt8) :
    Option (Item × ℕ) :=
  items.zipIdx.find? fun p =>
    p.1.p_name.length = len.toNat ∧ p.1.p_name = p_data.slice p_name len.toNat

theorem mem_of_shellFind {items : List Item} {p_data : Memory UInt8} {p_name : ℕ} {len : UInt8}
    {p : Item × ℕ} (h : shellFind items p_data p_name len = some p) : p.1 ∈ items :=
  List.fst_mem_of_mem_zipIdx (List.mem_of_find?_eq_some h)

theorem name_of_shellFind {items : List Item} {p_data : Memory UInt8} {p_name : ℕ} {len : UInt8}
    {p : Item × ℕ} (h : shellFind items p_data p_name len = some p) :
    p.1.p_name.length = len.toNat ∧ p.1.p_name = p_data.slice p_name len.toNat := by
  unfold shellFind at h
  have hfound := List.find?_some h
  exact of_decide_eq_true hfound

/-- The name is all that the search reads of the frame. -/
theorem shellFind_congr {items : List Item} {p_data p_data' : Memory UInt8} {p_name : ℕ}
    {len : UInt8}
    (h : p_data.slice p_name len.toNat = p_data'.slice p_name len.toNat) :
    shellFind items p_data p_name len = shellFind items p_data' p_name len := by
  unfold shellFind
  rw [h]

/-- An item with the name is found, or one in front of it. -/
theorem shellFind_isSome {items : List Item} {p_data : Memory UInt8} {p_name : ℕ} {len : UInt8}
    {p : Item} (hin : p ∈ items) (hlen : p.p_name.length = len.toNat)
    (hname : p.p_name = p_data.slice p_name len.toNat) :
    (shellFind items p_data p_name len).isSome = true := by
  obtain ⟨i, hi⟩ := List.mem_iff_getElem?.mp hin
  exact List.find?_isSome.mpr ⟨(p, i), List.mem_zipIdx_iff_getElem?.mpr hi,
    decide_eq_true ⟨hlen, hname⟩⟩

theorem Item.confined_store (p : Item) {items : List Item} (hin : p ∈ items)
    (data data_max data_min : List UInt8) :
    Memory.Confined (cellsOf items) (p.store data data_max data_min) := by
  have hwrite (object : ℕ) (hobject : object ∈ [p.p_var, p.p_max, p.p_min]) (bytes : List UInt8) :
      Memory.Confined (cellsOf items) fun m : Memory UInt8 =>
        m.write object (bytes.take p.type.size) := by
    refine Memory.confined_write fun i hi => ⟨p, hin, object, hobject, i, ?_, rfl⟩
    exact Nat.lt_of_lt_of_le hi (List.length_take_le _ _)
  have hvar := hwrite p.p_var (by simp) data
  have hmax := hwrite p.p_max (by simp) data_max
  exact (hwrite p.p_min (by simp) data_min).comp (hmax.comp hvar)

/-! ## The remote shell handlers -/

/-- A frame that is sent. -/
structure Reply where
  packet : Packet
  p_data : List UInt8
  my_printf : ℕ

/-- The memory, the status of the items by their place, and the variables of the wave stream. -/
structure Shell where
  memory : Memory UInt8
  status : ℕ → UInt32
  wave_report_flg : UInt8
  wave_report_period : UInt32
  p_wave_report_printf : Option ℕ
  wave_src : UInt8
  wave_dst : UInt8
  wave_sop : UInt8
  wave_version : UInt8
  wave_seq : UInt8

/-- The answer to a frame, as every handler builds it. -/
def answer (p_pack : Packet) (cmd_word : UInt8) (p_data : List UInt8) (my_printf : ℕ) : Reply where
  packet :=
    { sop := p_pack.sop
      version := p_pack.version
      src := p_pack.dst
      d_src := p_pack.d_dst
      dst := p_pack.src
      d_dst := p_pack.d_src
      cmd_set := 1
      cmd_word := cmd_word
      is_ack := 1
      len := UInt16.ofNat p_data.length
      crc := 0
      eop := 0
      seq := p_pack.seq }
  p_data := p_data
  my_printf := my_printf

/-- `shell_read_data_ret_t`; the value is read as four bytes whatever the type is -/
def readDataRet (p : Item) (m : Memory UInt8) : List UInt8 :=
  [UInt8.ofNat p.p_name.length, p.type.code] ++ m.slice p.p_var 4 ++ p.p_name

/-- `shell_write_data_ret_t`, read in the same way -/
def writeDataRet (p : Item) (m : Memory UInt8) : List UInt8 :=
  [UInt8.ofNat p.p_name.length, p.type.code] ++ m.slice p.p_var 4 ++ m.slice p.p_max 4 ++
    m.slice p.p_min 4 ++ p.p_name

/-- `shell_read_data_act` -/
def readDataAct (items : List Item) (p_pack : Packet) (p_data : Memory UInt8) (my_printf : ℕ)
    (s : Shell) : Shell × List Reply :=
  if p_pack.len.toNat ≠ 1 + (p_data 0).toNat then (s, [])
  else
    match shellFind items p_data 1 (p_data 0) with
    | none => (s, [])
    | some (p, _) =>
      let s := { s with memory := p.call s.memory }
      (s, [answer p_pack 2 (readDataRet p s.memory) my_printf])

/-- `shell_write_data_act`. Nothing is compared with the length of the frame. The clamp of the
source works on a copy that nothing reads. -/
def writeDataAct (items : List Item) (p_pack : Packet) (p_data : Memory UInt8) (my_printf : ℕ)
    (s : Shell) : Shell × List Reply :=
  match shellFind items p_data 13 (p_data 0) with
  | none => (s, [])
  | some (p, _) =>
    let memory := p.store (p_data.slice 1 4) (p_data.slice 5 4) (p_data.slice 9 4) s.memory
    ({ s with memory := p.call memory }, [answer p_pack 3 (writeDataRet p memory) my_printf])

/-- `shell_wave_param_enable_act`. The byte of the answer is `stack` until it is set. -/
def waveParamEnableAct (items : List Item) (p_pack : Packet) (p_data : Memory UInt8)
    (my_printf : ℕ) (stack : UInt8) (s : Shell) : Shell × List Reply :=
  if p_pack.len.toNat ≠ 2 + (p_data 0).toNat then (s, [])
  else
    match shellFind items p_data 2 (p_data 0) with
    | none => (s, [answer p_pack 5 [stack] my_printf])
    | some (_, i) =>
      let status := if p_data 1 ≠ 0 then s.status i ||| 4 else s.status i &&& ~~~4
      ({ s with status := Function.update s.status i status }, [answer p_pack 5 [1] my_printf])

/-- `shell_wave_start_act` -/
def waveStartAct (p_pack : Packet) (p_data : Memory UInt8) (my_printf : ℕ) (s : Shell) :
    Shell × List Reply :=
  if p_pack.len ≠ 1 then (s, [])
  else
    ({ s with
      wave_report_flg := p_data 0
      p_wave_report_printf := some my_printf
      wave_src := p_pack.dst
      wave_dst := p_pack.src
      wave_sop := p_pack.sop
      wave_version := p_pack.version
      wave_seq := p_pack.seq }, [answer p_pack 12 [] my_printf])

/-- `shell_wave_period_act` -/
def wavePeriodAct (p_pack : Packet) (p_data : Memory UInt8) (my_printf : ℕ) (s : Shell) :
    Shell × List Reply :=
  if p_pack.len ≠ 4 then (s, [])
  else
    let period := Lib.readU32Le (p_data.slice 0 4) 0
    ({ s with wave_report_period := period }, [answer p_pack 6 (Lib.u32Le period) my_printf])

/-- The handlers of a payload with fields. -/
inductive Handler
  | read | write | waveEnable | waveStart | wavePeriod
deriving DecidableEq

/-- What a handler finds behind the payload, on the stack and in the memory. -/
structure Context where
  p_data : Memory UInt8
  stack : UInt8
  shell : Shell

/-- The handler of a frame. -/
def Handler.act (handler : Handler) (items : List Item) (p_pack : Packet) (my_printf : ℕ)
    (c : Context) : Shell × List Reply :=
  match handler with
  | .read => readDataAct items p_pack c.p_data my_printf c.shell
  | .write => writeDataAct items p_pack c.p_data my_printf c.shell
  | .waveEnable => waveParamEnableAct items p_pack c.p_data my_printf c.stack c.shell
  | .waveStart => waveStartAct p_pack c.p_data my_printf c.shell
  | .wavePeriod => wavePeriodAct p_pack c.p_data my_printf c.shell

end Atoman.Shell
