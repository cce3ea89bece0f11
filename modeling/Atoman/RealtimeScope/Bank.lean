import Mathlib.Algebra.Group.Nat.Defs
import Mathlib.Algebra.GroupWithZero.Nat
import Mathlib.Data.Nat.Basic
import Mathlib.Logic.Function.Basic

/-!
# Channel banks

A bank has a node for each of the 32 channels. Those of the enabled channels are linked,
the lowest channel first; `realtime_scope_set` links them anew.

An address is a number, and `NULL` is `none`. A cell that holds a link is `p_head`, which is
`none`, or `p_next` of a node, which is the index of the node.
-/

namespace Atoman.RealtimeScope

/-- `REALTIME_SCOPE_CHANNELS` -/
def channels : ℕ := 32

/-- `REALTIME_SCOPE_FRAME_MAX` -/
def frameMax : ℕ := 261

/-- `realtime_scope_type_size` -/
def typeSize (type : UInt32) : ℕ := [0, 1, 1, 2, 2, 4, 4, 8, 8, 4, 8, 1].getD type.toNat 0

theorem typeSize_cases (type : UInt32) : typeSize type = 0 ∨ typeSize type = 1 ∨ typeSize type = 2 ∨
    typeSize type = 4 ∨ typeSize type = 8 := by
  unfold typeSize
  rw [List.getD_eq_getElem?_getD]
  cases hget : [0, 1, 1, 2, 2, 4, 4, 8, 8, 4, 8, 1][type.toNat]? with
  | none => exact Or.inl rfl
  | some size =>
    have hall : ∀ size ∈ [0, 1, 1, 2, 2, 4, 4, 8, 8, 4, 8, 1],
        size = 0 ∨ size = 1 ∨ size = 2 ∨ size = 4 ∨ size = 8 := by decide
    exact hall size (List.mem_of_getElem? hget)

/-- `realtime_scope_node_t` -/
structure Node where
  p_address : Option ℕ
  type : UInt32
  p_next : Option ℕ

/-- `realtime_scope_bank_t` -/
structure Bank where
  nodes : ℕ → Node
  p_head : Option ℕ
  enabled : BitVec 32
  payload_size : ℕ

namespace Bank

/-- A bank of zeros. -/
def zero : Bank := ⟨fun _ => ⟨none, 0, none⟩, none, 0, 0⟩

/-- The link in a cell. -/
def link (bank : Bank) : Option ℕ → Option ℕ
  | none => bank.p_head
  | some i => (bank.nodes i).p_next

/-- `*p_tail = p_node` -/
def setLink (bank : Bank) (p_tail p_node : Option ℕ) : Bank :=
  match p_tail with
  | none => { bank with p_head := p_node }
  | some i =>
    { bank with nodes := Function.update bank.nodes i { bank.nodes i with p_next := p_node } }

/-- Link the node of an enabled channel. -/
def addChannel (bank : Bank) (p_tail : Option ℕ) (i : ℕ) : Bank :=
  let bank := bank.setLink p_tail (some i)
  { bank with payload_size := (bank.payload_size + typeSize (bank.nodes i).type) % 2 ^ 16 }

/-- One round of the loop of `realtime_scope_set`, with `p_tail`. -/
def linkChannel (state : Bank × Option ℕ) (i : ℕ) : Bank × Option ℕ :=
  if state.1.enabled.getLsbD i then (state.1.addChannel state.2 i, some i) else state

/-- The loop of `realtime_scope_set` with what follows it. -/
def relink (bank : Bank) : Bank :=
  let linked := (List.range channels).foldl linkChannel (bank, none)
  linked.1.setLink linked.2 none

/-- `realtime_scope_set`, for the bank that `p_config` points to -/
def set (bank : Bank) (channel : UInt8) (p_address : Option ℕ) (type : UInt32) : Option Bank :=
  let size := typeSize type
  if channel = 0 ∨ channels < channel.toNat ∨ (p_address.isSome ∧ size = 0) then none
  else
    let i := channel.toNat - 1
    let bit : BitVec 32 := 1#32 <<< i
    some (relink { bank with
      nodes :=
        Function.update bank.nodes i { bank.nodes i with p_address := p_address, type := type }
      enabled := if p_address.isNone then bank.enabled &&& ~~~bit else bank.enabled ||| bit
      payload_size := 0 })

/-- The nodes that a walk over the links from a cell on visits, at most `n` of them. -/
def walk (bank : Bank) : ℕ → Option ℕ → List ℕ
  | 0, _ => []
  | n + 1, cell =>
    match bank.link cell with
    | none => []
    | some i => i :: walk bank n (some i)

/-! ## Links -/

/-- The links lead from the cell over the nodes to `NULL`. -/
def Linked (bank : Bank) : Option ℕ → List ℕ → Prop
  | cell, [] => bank.link cell = none
  | cell, i :: is => bank.link cell = some i ∧ Linked bank (some i) is

variable {bank bank' : Bank} {cell p_tail p_node : Option ℕ} {is : List ℕ} {i n : ℕ}

theorem Linked.walk (h : bank.Linked cell is) (hn : is.length < n) : bank.walk n cell = is := by
  induction is generalizing cell n with
  | nil =>
    obtain ⟨n, rfl⟩ := Nat.exists_eq_add_of_lt hn
    have hlink : bank.link cell = none := h
    rw [List.length_nil, Nat.zero_add, Bank.walk, hlink]
  | cons i is ih =>
    obtain ⟨n, rfl⟩ := Nat.exists_eq_add_of_lt hn
    obtain ⟨hlink, hrest⟩ := h
    rw [Bank.walk, hlink]
    dsimp only
    rw [ih hrest (by rw [List.length_cons]; omega)]

theorem link_setLink :
    (bank.setLink p_tail p_node).link = Function.update bank.link p_tail p_node := by
  funext cell
  cases p_tail with
  | none =>
    cases cell with
    | none => rfl
    | some j => exact (Function.update_of_ne (Option.some_ne_none j) _ _).symm
  | some i =>
    cases cell with
    | none => exact (Function.update_of_ne (Option.some_ne_none i).symm _ _).symm
    | some j =>
      by_cases hj : j = i
      · subst hj
        rw [Function.update_self]
        exact congrArg Node.p_next (Function.update_self j _ bank.nodes)
      · rw [Function.update_of_ne (fun h => hj (Option.some.inj h))]
        exact congrArg Node.p_next (Function.update_of_ne hj _ bank.nodes)

/-- What the links do not matter for. -/
structure SameChannels (bank bank' : Bank) : Prop where
  enabled : bank'.enabled = bank.enabled
  p_address : ∀ i, (bank'.nodes i).p_address = (bank.nodes i).p_address
  type : ∀ i, (bank'.nodes i).type = (bank.nodes i).type

theorem SameChannels.trans {bank'' : Bank} (h : SameChannels bank bank')
    (h' : SameChannels bank' bank'') : SameChannels bank bank'' :=
  ⟨h'.enabled.trans h.enabled, fun i => (h'.p_address i).trans (h.p_address i),
    fun i => (h'.type i).trans (h.type i)⟩

theorem sameChannels_setLink : SameChannels bank (bank.setLink p_tail p_node) := by
  cases p_tail with
  | none => exact ⟨rfl, fun _ => rfl, fun _ => rfl⟩
  | some i =>
    have hnode (j : ℕ) : (bank.setLink (some i) p_node).nodes j =
        { bank.nodes j with p_next := if j = i then p_node else (bank.nodes j).p_next } := by
      by_cases hj : j = i
      · subst hj
        rw [if_pos rfl]
        exact Function.update_self j _ bank.nodes
      · rw [if_neg hj]
        exact Function.update_of_ne hj _ bank.nodes
    exact ⟨rfl, fun j => (congrArg Node.p_address (hnode j)).trans rfl,
      fun j => (congrArg Node.type (hnode j)).trans rfl⟩

theorem sameChannels_addChannel : SameChannels bank (bank.addChannel p_tail i) :=
  have h : SameChannels bank (bank.setLink p_tail (some i)) := sameChannels_setLink
  ⟨h.enabled, h.p_address, h.type⟩

theorem link_addChannel :
    (bank.addChannel p_tail i).link = Function.update bank.link p_tail (some i) := by
  rw [← link_setLink]
  funext cell
  cases cell <;> rfl

/-- The size of a channel's value. -/
def width (bank : Bank) (i : ℕ) : ℕ := typeSize (bank.nodes i).type

theorem SameChannels.width (h : SameChannels bank bank') : bank'.width = bank.width := by
  funext i
  unfold Bank.width
  rw [h.type]

theorem payload_size_addChannel :
    (bank.addChannel p_tail i).payload_size = (bank.payload_size + bank.width i) % 2 ^ 16 := by
  have hset : SameChannels bank (bank.setLink p_tail (some i)) := sameChannels_setLink
  have hkept : (bank.setLink p_tail (some i)).payload_size = bank.payload_size := by
    cases p_tail <;> rfl
  unfold addChannel width
  dsimp only
  rw [hkept, hset.type]

/-! ## Banks in order -/

/-- The enabled channels, counted from zero, in ascending order. -/
def enabledChannels (bank : Bank) : List ℕ := (List.range channels).filter bank.enabled.getLsbD

/-- The links, the size and the nodes agree with the channels that are enabled. -/
structure Ready (bank : Bank) : Prop where
  linked : bank.Linked none bank.enabledChannels
  payload_size : bank.payload_size = (bank.enabledChannels.map bank.width).sum
  resolved : ∀ i, bank.enabled.getLsbD i = true →
    (bank.nodes i).p_address.isSome = true ∧ 0 < bank.width i

theorem ready_zero : zero.Ready := by
  have hnone : zero.enabledChannels = [] := by decide
  refine ⟨?_, ?_, fun i hi => ?_⟩
  · rw [hnone]
    rfl
  · rw [hnone]
    rfl
  · rw [zero, BitVec.ofNat_eq_ofNat, BitVec.getLsbD_zero] at hi
    exact nomatch hi

theorem typeSize_le (type : UInt32) : typeSize type ≤ 8 := by
  rcases typeSize_cases type with h | h | h | h | h <;> omega

theorem sum_width_le (bank : Bank) (is : List ℕ) : (is.map bank.width).sum ≤ 8 * is.length := by
  induction is with
  | nil => exact Nat.le_refl 0
  | cons i is ih =>
    have hle : bank.width i ≤ 8 := typeSize_le _
    rw [List.map_cons, List.sum_cons, List.length_cons]
    omega

theorem length_enabledChannels_le (bank : Bank) : bank.enabledChannels.length ≤ channels := by
  refine Nat.le_trans (List.length_filter_le _ _) ?_
  rw [List.length_range]

/-- The payload of a frame. -/
theorem Ready.payload_size_le (h : bank.Ready) : bank.payload_size + 5 ≤ frameMax := by
  have hsum := sum_width_le bank bank.enabledChannels
  have hlength := length_enabledChannels_le bank
  rw [h.payload_size]
  unfold channels at hlength
  unfold frameMax
  omega

/-- A walk over the links visits the enabled channels. -/
theorem Ready.walk (h : bank.Ready) : bank.walk (channels + 1) none = bank.enabledChannels :=
  h.linked.walk (Nat.lt_succ_of_le (length_enabledChannels_le bank))

/-! ## Linking the channels anew -/

variable (bank) in
/-- The loop over some channels, none of which the tail belongs to, and the last link. -/
theorem relinked (htail : ∀ i ∈ is, p_tail ≠ some i) (hnodup : is.Nodup) :
    let linked := is.foldl linkChannel (bank, p_tail)
    let result := linked.1.setLink linked.2 none
    SameChannels bank result ∧ result.Linked p_tail (is.filter bank.enabled.getLsbD) ∧
      (∀ cell, cell ≠ p_tail → (∀ i ∈ is, cell ≠ some i) → result.link cell = bank.link cell) ∧
      (bank.payload_size + ((is.filter bank.enabled.getLsbD).map bank.width).sum < 2 ^ 16 →
        result.payload_size =
          bank.payload_size + ((is.filter bank.enabled.getLsbD).map bank.width).sum) := by
  induction is generalizing bank p_tail with
  | nil =>
    refine ⟨sameChannels_setLink, ?_, fun cell hcell _ => ?_, fun _ => ?_⟩
    · show (bank.setLink p_tail none).link p_tail = none
      rw [link_setLink, Function.update_self]
    · show (bank.setLink p_tail none).link cell = _
      rw [link_setLink, Function.update_of_ne hcell]
    · cases p_tail <;> rfl
  | cons i is ih =>
    obtain ⟨hi, hnodup⟩ := List.nodup_cons.mp hnodup
    have hrest : ∀ j ∈ is, p_tail ≠ some j := fun j hj => htail j (List.mem_cons_of_mem i hj)
    rw [List.foldl_cons]
    by_cases hon : bank.enabled.getLsbD i = true
    · have hstep : linkChannel (bank, p_tail) i = (bank.addChannel p_tail i, some i) := if_pos hon
      have hsame : SameChannels bank (bank.addChannel p_tail i) := sameChannels_addChannel
      have hne : ∀ j ∈ is, some i ≠ some j := fun j hj h => hi (Option.some.inj h ▸ hj)
      obtain ⟨hchannels, hlinked, hcells, hsize⟩ := ih (bank.addChannel p_tail i) hne hnodup
      rw [hsame.enabled] at hlinked hsize
      rw [hsame.width, payload_size_addChannel] at hsize
      rw [hstep, List.filter_cons_of_pos hon, List.map_cons, List.sum_cons]
      refine ⟨hsame.trans hchannels, ⟨?_, hlinked⟩, fun cell hcell hout => ?_, fun hlt => ?_⟩
      · rw [hcells p_tail (htail i List.mem_cons_self) hrest, link_addChannel, Function.update_self]
      · rw [hcells cell (hout i List.mem_cons_self) fun j hj => hout j (List.mem_cons_of_mem i hj),
          link_addChannel, Function.update_of_ne hcell]
      · have hmod : (bank.payload_size + bank.width i) % 2 ^ 16 =
            bank.payload_size + bank.width i :=
          Nat.mod_eq_of_lt (by omega)
        rw [hmod] at hsize
        rw [hsize (by omega), Nat.add_assoc]
    · have hstep : linkChannel (bank, p_tail) i = (bank, p_tail) := if_neg hon
      rw [hstep, List.filter_cons_of_neg hon]
      obtain ⟨hchannels, hlinked, hcells, hsize⟩ := ih bank hrest hnodup
      exact ⟨hchannels, hlinked,
        fun cell hcell hout => hcells cell hcell fun j hj =>
          hout j (List.mem_cons_of_mem i hj), hsize⟩

/-- **Linking** leaves the bank in order. -/
theorem ready_relink (hsize : bank.payload_size = 0)
    (hresolved : ∀ i, bank.enabled.getLsbD i = true →
      (bank.nodes i).p_address.isSome = true ∧ 0 < bank.width i) :
    bank.relink.Ready ∧ SameChannels bank bank.relink := by
  have hnone : ∀ i ∈ List.range channels, (none : Option ℕ) ≠ some i := fun i _ => nofun
  obtain ⟨hchannels, hlinked, -, hpayload⟩ := relinked bank hnone List.nodup_range
  change SameChannels bank bank.relink at hchannels
  have hlist : bank.relink.enabledChannels = bank.enabledChannels := by
    unfold enabledChannels
    rw [hchannels.enabled]
  have hbound : bank.payload_size + (bank.enabledChannels.map bank.width).sum < 2 ^ 16 := by
    have hsum := sum_width_le bank bank.enabledChannels
    have hlength := length_enabledChannels_le bank
    unfold channels at hlength
    omega
  refine ⟨⟨?_, ?_, fun i hi => ?_⟩, hchannels⟩
  · rw [hlist]
    exact hlinked
  · rw [hlist, hchannels.width]
    exact (hpayload hbound).trans (by rw [hsize, Nat.zero_add]; rfl)
  · rw [hchannels.width, hchannels.p_address]
    exact hresolved i (hchannels.enabled ▸ hi)

/-- **Setting a channel** keeps the bank in order. -/
theorem Ready.set {channel : UInt8} {p_address : Option ℕ} {type : UInt32} (h : bank.Ready)
    (hset : bank.set channel p_address type = some bank') : bank'.Ready := by
  unfold Bank.set at hset
  dsimp only at hset
  split at hset
  · exact nomatch hset
  · next hvalid =>
    rw [not_or, not_or, not_and_or] at hvalid
    obtain rfl := Option.some.inj hset
    refine (ready_relink rfl fun i hi => ?_).1
    dsimp only at hi
    unfold width
    by_cases hself : i = channel.toNat - 1
    · subst hself
      dsimp only
      rw [Function.update_self]
      cases p_address with
      | none => simp at hi
      | some address =>
        rcases hvalid.2.2 with hnone | hsize
        · exact absurd rfl hnone
        · exact ⟨rfl, Nat.pos_of_ne_zero hsize⟩
    · dsimp only
      rw [Function.update_of_ne hself]
      refine h.resolved i ?_
      cases p_address with
      | none =>
        simp only [Option.isNone_none, if_true, BitVec.getLsbD_and] at hi
        exact (Bool.and_eq_true_iff.mp hi).1
      | some address =>
        have hbit : (1#32 <<< (channel.toNat - 1)).getLsbD i = false := by
          rw [← BitVec.twoPow_eq, BitVec.getLsbD_twoPow]
          simp only [Bool.and_eq_false_iff, decide_eq_false_iff_not]
          exact Or.inr fun heq => hself heq.symm
        rw [if_neg nofun, BitVec.getLsbD_or, hbit, Bool.or_false] at hi
        exact hi

end Bank
end Atoman.RealtimeScope
