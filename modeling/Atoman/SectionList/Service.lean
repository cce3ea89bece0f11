import Atoman.Comm.Commands
import Atoman.Lib.LittleEndian

/-!
# The section-list service

The service answers queries about the lists of section items. A registration names a list and
says where its first pointer is; a node query goes along the links from there, as they are at
that time, to the node with the index that it asks for.
-/

namespace Atoman.SectionList
open Comm (Packet CommLists)
open Lib (Memory)

/-- `SECTION_LIST_NAME_LEN_MAX` -/
def nameLenMax : ℕ := 63

/-- `section_list_status_t` -/
inductive Status
  | ok | invalidRequest | indexInvalid | listIdInvalid | nodeIndexInvalid | registrationInvalid
  | addressUnavailable
deriving DecidableEq

def Status.code : Status → UInt8
  | ok => 0
  | invalidRequest => 1
  | indexInvalid => 2
  | listIdInvalid => 3
  | nodeIndexInvalid => 4
  | registrationInvalid => 5
  | addressUnavailable => 6

/-- The pointers to a first item that a registration may name: those of the commands and the
routes, and those of the other modules. -/
inductive Head
  | command | route | other (list : ℕ)
deriving DecidableEq

/-- `section_list_registration_t`; a name goes up to its end -/
structure Registration where
  p_name : Option (List UInt8)
  pp_head : Option Head
deriving DecidableEq

/-- `section_list_service_name_len` -/
def nameLen (p_name : List UInt8) : ℕ := min p_name.length nameLenMax

/-- `section_list_service_registration_is_valid` -/
def Registration.isValid (p_registration : Registration) : Bool :=
  match p_registration.p_name, p_registration.pp_head with
  | some name, some _ => nameLen name ≠ 0 && name.length ≤ nameLenMax
  | _, _ => false

/-- `section_list_service_registration_get`, from a registration on; `none` is a record without an
object -/
def registrationGetFrom (directory_index : ℕ) :
    ℕ → List (Option Registration) → Option Registration
  | _, [] => none
  | current_index, none :: regs => registrationGetFrom directory_index current_index regs
  | current_index, some r :: regs =>
    if r.isValid then
      if current_index = directory_index then some r
      else
        registrationGetFrom directory_index
          (if current_index < 2 ^ 16 - 1 then current_index + 1 else current_index) regs
    else registrationGetFrom directory_index current_index regs

/-- `section_list_service_registration_get` -/
def registrationGet (regs : List (Option Registration)) (directory_index : ℕ) :
    Option Registration := registrationGetFrom directory_index 0 regs

/-- `section_list_service_find` -/
def find (regs : List (Option Registration)) (list_id : UInt16) : Option Registration :=
  if list_id = 0 then none else registrationGet regs (list_id.toNat - 1)

/-- `section_list_service_node_count`, up to `UINT32_MAX` -/
def nodeCountFrom (next : ℕ → Option ℕ) : ℕ → Option ℕ → ℕ
  | 0, _ => 0
  | _ + 1, none => 0
  | k + 1, some t => nodeCountFrom next k (next t) + 1

/-- `section_list_service_node_count` -/
def nodeCount (next : ℕ → Option ℕ) (p_first : Option ℕ) : ℕ :=
  nodeCountFrom next (2 ^ 32 - 1) p_first

/-- `section_list_service_node_get` -/
def nodeGet (next : ℕ → Option ℕ) : Option ℕ → ℕ → Option ℕ
  | none, _ => none
  | some t, 0 => some t
  | some t, k + 1 => nodeGet next (next t) k

/-- A frame that is sent. -/
structure Reply where
  packet : Packet
  p_data : List UInt8
  my_printf : ℕ
deriving DecidableEq

/-- `section_list_service_reply` -/
def reply (p_request : Packet) (my_printf : ℕ) (command_word : UInt8) (p_payload : List UInt8) :
    Reply where
  packet :=
    { sop := p_request.sop
      version := p_request.version
      src := p_request.dst
      d_src := p_request.d_dst
      dst := p_request.src
      d_dst := p_request.d_src
      cmd_set := 0x01
      cmd_word := command_word
      is_ack := 1
      len := UInt16.ofNat p_payload.length
      crc := 0
      eop := 0
      seq := p_request.seq }
  p_data := p_payload
  my_printf := my_printf

/-- The lists that are in memory: those of the commands and the routes, where the other lists
begin, and the address of the object of each item. -/
structure Lists where
  comm : CommLists
  first : ℕ → Option ℕ
  p_obj : ℕ → UInt32

/-- The pointer to the first item of a list -/
def Lists.head (s : Lists) : Head → Option ℕ
  | .command => s.comm.commandFirst
  | .route => s.comm.routeFirst
  | .other list => s.first list

/-- What `section_list_node_act` finds out: the status, the number of nodes and the address -/
def Lists.node (s : Lists) (regs : List (Option Registration)) (list_id : UInt16)
    (node_index : UInt32) : Status × ℕ × UInt32 :=
  match find regs list_id with
  | none => (.listIdInvalid, 0, 0)
  | some r =>
    match r.pp_head with
    | none => (.registrationInvalid, 0, 0)
    | some h =>
      let node_count := nodeCount s.comm.next (s.head h)
      match nodeGet s.comm.next (s.head h) node_index.toNat with
      | none => (.nodeIndexInvalid, node_count, 0)
      | some t =>
        if s.p_obj t = 0 then (.addressUnavailable, node_count, 0)
        else (.ok, node_count, s.p_obj t)

/-- The payload of the answer to a node query; only one that is OK has an address. -/
def nodePayload (status : Status) (list_id : UInt16) (node_index : UInt32) (node_count : ℕ)
    (address : UInt32) : List UInt8 :=
  [1, status.code] ++ Lib.u16Le list_id ++ Lib.u32Le node_index ++
    Lib.u32Le (UInt32.ofNat node_count) ++ if status = .ok then Lib.u32Le address else []

/-- `section_list_node_act` -/
def Lists.nodeAct (s : Lists) (regs : List (Option Registration)) (p_pack : Packet)
    (p_data : Option (Memory UInt8)) (my_printf : ℕ) : List Reply :=
  if p_pack.is_ack ≠ 0 then []
  else
    match p_data with
    | none => [reply p_pack my_printf 0x39 (nodePayload .invalidRequest 0 0 0 0)]
    | some data =>
      if p_pack.len < 6 then [reply p_pack my_printf 0x39 (nodePayload .invalidRequest 0 0 0 0)]
      else
        let list_id := Lib.readU16Le (data.slice 0 2) 0
        let node_index := Lib.readU32Le (data.slice 2 4) 0
        let found := s.node regs list_id node_index
        [reply p_pack my_printf 0x39 (nodePayload found.1 list_id node_index found.2.1 found.2.2)]

/-! ## A list in memory -/

/-- The nodes from a pointer on -/
inductive Chain (next : ℕ → Option ℕ) : Option ℕ → List ℕ → Prop
  | nil : Chain next none []
  | cons (t : ℕ) (xs : List ℕ) (h : Chain next (next t) xs) : Chain next (some t) (t :: xs)

variable {next : ℕ → Option ℕ} {first : Option ℕ} {xs : List ℕ}

theorem Chain.nodeCountFrom (h : Chain next first xs) {k : ℕ} (hk : xs.length ≤ k) :
    nodeCountFrom next k first = xs.length := by
  induction h generalizing k with
  | nil => cases k <;> rfl
  | cons t xs _ ih =>
    obtain ⟨k, rfl⟩ : ∃ j, k = j + 1 := ⟨k - 1, by simp at hk; omega⟩
    rw [SectionList.nodeCountFrom, ih (by simpa using hk), List.length_cons]

theorem Chain.nodeGet (h : Chain next first xs) (k : ℕ) : nodeGet next first k = xs[k]? := by
  induction h generalizing k with
  | nil => cases k <;> rfl
  | cons t xs _ ih =>
    cases k with
    | zero => rfl
    | succ k => exact ih k

/-- Only the links of its own nodes matter. -/
theorem Chain.congr {next' : ℕ → Option ℕ} (h : Chain next first xs)
    (hnext : ∀ t ∈ xs, next' t = next t) : Chain next' first xs := by
  induction h with
  | nil => exact .nil
  | cons t xs _ ih =>
    refine .cons t xs ?_
    rw [hnext t (by simp)]
    exact ih fun u hu => hnext u (by simp [hu])

/-- A list with two ends is one. -/
theorem chain_of_holds {l : Lib.SearchList ℕ} (h : l.Holds xs) : Chain l.next l.first xs := by
  suffices hall : ∀ ys zs, xs = ys ++ zs → Chain l.next zs.head? zs by
    rw [h.first]
    exact hall [] xs rfl
  intro ys zs hxs
  induction zs generalizing ys with
  | nil => exact .nil
  | cons t zs ih =>
    refine .cons t zs ?_
    rw [h.next_of_split ys hxs]
    exact ih (ys ++ [t]) (by simp [hxs])

/-- **A node query** that is answered names the object of the node at its index. -/
theorem Lists.node_of_chain {s : Lists} {regs : List (Option Registration)} {list_id : UInt16}
    {r : Registration} {h : Head} {node_index : UInt32} {t : ℕ} (hfind : find regs list_id = some r)
    (hhead : r.pp_head = some h) (hchain : Chain s.comm.next (s.head h) xs)
    (hlength : xs.length < 2 ^ 32) (ht : xs[node_index.toNat]? = some t) (hobj : s.p_obj t ≠ 0) :
    s.node regs list_id node_index = (.ok, xs.length, s.p_obj t) := by
  simp only [Lists.node, hfind, hhead, nodeCount]
  rw [hchain.nodeCountFrom (by omega), hchain.nodeGet, ht]
  exact if_neg hobj

end Atoman.SectionList
