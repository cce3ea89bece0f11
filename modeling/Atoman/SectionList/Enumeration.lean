import Atoman.SectionList.Service

/-!
# Asking for all nodes of a list

A client asks for one node after the other, and other requests are handled in between. Every
request of the first protocol searches the list of the commands, which moves the command found
to the front. The other lists stay as they are, so all of their nodes are reported. Of the
list of the commands they are as long as the searches find what was reported already.
-/

namespace Atoman.SectionList
open Comm (Packet CommLists Objects)
open Comm.CommLists (isFor)
open Lib (Memory SearchList)

/-- The two protocols -/
inductive Protocol
  | comm | commV1
deriving DecidableEq

/-- A request, by what its handler is searched for. -/
structure Request where
  protocol : Protocol
  cmd_set : UInt8
  cmd_word : UInt8
deriving DecidableEq

/-- What handling a request does to the lists: only the search of the first protocol reorders
one. -/
def Request.handle (r : Request) (o : Objects) (n : ℕ) (s : CommLists) : CommLists :=
  match r.protocol with
  | .comm => (s.findCommFunc o n r.cmd_set r.cmd_word).1
  | .commV1 => s

/-- The registered items, the lists, and the requests of a run: node query `i` of a client comes by
the protocol `query i` with the frame `frame i`, after the requests `between i`. -/
structure Run where
  o : Objects
  registered : List ℕ
  lists : Lists
  regs : List (Option Registration)
  list_id : UInt16
  between : ℕ → List Request
  query : ℕ → Protocol
  frame : ℕ → Packet
  p_data : ℕ → Memory UInt8
  my_printf : ℕ

namespace Run
variable (run : Run)

/-- The request that a node query is -/
def queryRequest (i : ℕ) : Request := ⟨run.query i, 0x01, 0x39⟩

/-- The requests that are handled from node query `i - 1` on, up to node query `i` -/
def requests (i : ℕ) : List Request := run.between i ++ [run.queryRequest i]

/-- The lists after some requests -/
def handled (requests : List Request) (s : CommLists) : CommLists :=
  requests.foldl (fun s r => r.handle run.o run.registered.length s) s

/-- The lists when the handler of node query `i` runs -/
def comm : ℕ → CommLists
  | 0 => run.handled (run.requests 0) run.lists.comm
  | i + 1 => run.handled (run.requests (i + 1)) (comm i)

/-- All lists when the handler of node query `i` runs -/
def state (i : ℕ) : Lists := { run.lists with comm := run.comm i }

/-- What is answered to node query `i` -/
def answers (i : ℕ) : List Reply :=
  (run.state i).nodeAct run.regs (run.frame i) (some (run.p_data i)) run.my_printf

/-- A client asks for the nodes of the list one after the other. -/
structure Asks (n : ℕ) : Prop where
  request : ∀ i < n, (run.frame i).is_ack = 0 ∧ 6 ≤ (run.frame i).len
  list : ∀ i < n, Lib.readU16Le ((run.p_data i).slice 0 2) 0 = run.list_id
  index : ∀ i < n, Lib.readU32Le ((run.p_data i).slice 2 4) 0 = UInt32.ofNat i

/-- The answer that reports a node of a list -/
def report (i n : ℕ) (t : ℕ) : List Reply :=
  [reply (run.frame i) run.my_printf 0x39
    (nodePayload .ok run.list_id (UInt32.ofNat i) n (run.lists.p_obj t))]

/-- The node queries report each node of the list once. -/
def Complete (xs : List ℕ) : Prop :=
  ∃ nodes : List ℕ, nodes.Perm xs ∧
    ∀ i t, nodes[i]? = some t → run.answers i = run.report i xs.length t

/-- The lists at the start: that of the commands, in some order, and the one that the client asks
for, of which no node is a command if it is another one. -/
structure Starts (h : Head) (xs : List ℕ) : Prop where
  registered : ∃ ys, CommLists.Reordered run.o run.registered ys ∧ run.lists.comm.command.Holds ys ∧
    (h = .command → ys = xs) ∧ (h ≠ .command → List.Disjoint ys xs)
  chain : Chain run.lists.comm.next (run.lists.head h) xs
  nodup : xs.Nodup
  length : xs.length < 2 ^ 32
  object : ∀ t ∈ xs, run.lists.p_obj t ≠ 0
  found : ∃ r, find run.regs run.list_id = some r ∧ r.pp_head = some h

/-- The node with the index that node query `i` asks for -/
def nodeAt (h : Head) (i : ℕ) : Option ℕ :=
  nodeGet (run.comm i).next ((run.state i).head h) i

/-- Of the searches after the first node query, none moves a command that was not reported yet to
the front. -/
def Settled (n : ℕ) : Prop :=
  ∀ i, 0 < i → i < n → ∀ r ∈ run.requests i, r.protocol = .comm → ∀ t,
    run.registered.find? (isFor run.o r.cmd_set r.cmd_word) = some t →
      ∃ j < i, run.nodeAt .command j = some t

variable {run}

/-! ## A request -/

/-- The commands keep being registered, and the links of the other items stay. -/
theorem handle_spec {o : Objects} {registered ys : List ℕ} {s : CommLists}
    (hys : CommLists.Reordered o registered ys) (h : s.command.Holds ys) (r : Request) :
    ∃ ys', CommLists.Reordered o registered ys' ∧
      (r.handle o registered.length s).command.Holds ys' ∧
      (∀ t ∉ ys, (r.handle o registered.length s).next t = s.next t) ∧
      (r.handle o registered.length s).routeFirst = s.routeFirst ∧
      (ys' = ys ∨ r.protocol = .comm ∧
        ys' = SearchList.accessed (isFor o r.cmd_set r.cmd_word) ys) := by
  obtain ⟨protocol, cmd_set, cmd_word⟩ := r
  cases protocol with
  | commV1 => exact ⟨ys, hys, h, fun _ _ => rfl, rfl, .inl rfl⟩
  | comm =>
    refine ⟨_, hys.accessed cmd_set cmd_word, (CommLists.findCommFunc_spec le_rfl hys h _ _).1, ?_,
      rfl, .inr ⟨rfl, rfl⟩⟩
    intro t ht
    exact h.access_next _ _ ht

/-- The first place of a node that a search finds. -/
theorem take_accessed {p : ℕ → Bool} {ys : List ℕ} {i : ℕ}
    (h : ∀ t, ys.find? p = some t → i = 0 ∨ t ∈ ys.take i) :
    ((SearchList.accessed p ys).take i).Perm (ys.take i) := by
  cases hfind : ys.find? p with
  | none => rw [SearchList.accessed_of_find?_eq_none hfind]
  | some t =>
    obtain ⟨ht, as, bs, rfl, has⟩ := List.find?_eq_some_iff_append.mp hfind
    rw [SearchList.accessed_of_split rfl (by simpa using has) ht]
    rcases h t hfind with rfl | hin
    · exact .rfl
    · have hlt : as.length < i := by
        by_contra hle
        rw [List.take_append_of_le_length (by omega)] at hin
        have hnot := has t (List.mem_of_mem_take hin)
        simp [ht] at hnot
      obtain ⟨k, rfl⟩ : ∃ k, i = as.length + (k + 1) := ⟨i - as.length - 1, by omega⟩
      rw [List.take_length_add_append, List.take_succ_cons, ← Nat.add_assoc, List.take_succ_cons,
        List.take_length_add_append]
      exact List.perm_middle.symm

/-- The commands between two requests, `nodes` of them reported: those come first. -/
structure Progress (run : Run) (s : CommLists) (nodes : List ℕ) : Prop where
  lists : ∃ ys, CommLists.Reordered run.o run.registered ys ∧ s.command.Holds ys ∧
    nodes.Perm (ys.take nodes.length)

/-- Searches for what was reported keep what was reported in front. -/
theorem Progress.handled {s : CommLists} {nodes : List ℕ} (h : Progress run s nodes)
    (rs : List Request) (hrs : ∀ r ∈ rs, r.protocol = .comm → ∀ t,
      run.registered.find? (isFor run.o r.cmd_set r.cmd_word) = some t →
        nodes.length = 0 ∨ t ∈ nodes) : Progress run (run.handled rs s) nodes := by
  induction rs generalizing s with
  | nil => exact h
  | cons r rs ih =>
    refine ih ?_ fun r' hr' => hrs r' (List.mem_cons_of_mem _ hr')
    obtain ⟨ys, hys, hholds, hperm⟩ := h.lists
    obtain ⟨ys', hys', hholds', -, -, rfl | ⟨hcomm, rfl⟩⟩ := handle_spec hys hholds r
    · exact ⟨ys', hys', hholds', hperm⟩
    · refine ⟨_, hys', hholds', hperm.trans (take_accessed ?_).symm⟩
      intro t ht
      rw [hys.find?] at ht
      rcases hrs r List.mem_cons_self hcomm t ht with hzero | hin
      · exact .inl hzero
      · exact .inr (hperm.subset hin)

/-- The next node is reported. -/
theorem Progress.report {s : CommLists} {nodes : List ℕ} (h : Progress run s nodes)
    (hlt : nodes.length < run.registered.length) :
    ∃ t, nodeGet s.next s.commandFirst nodes.length = some t ∧ Progress run s (nodes ++ [t]) := by
  obtain ⟨ys, hys, hholds, hperm⟩ := h.lists
  have hlen : nodes.length < ys.length := hys.perm.length_eq ▸ hlt
  refine ⟨ys[nodes.length], ?_, ys, hys, hholds, ?_⟩
  · have hget := (chain_of_holds hholds).nodeGet nodes.length
    exact hget.trans (List.getElem?_eq_getElem hlen)
  · rw [List.length_append, List.length_singleton, List.take_add_one,
      List.getElem?_eq_getElem hlen]
    exact hperm.append_right _

/-- The answer to a node query about a list that is in memory -/
theorem answers_eq {n i : ℕ} {h : Head} {ys : List ℕ} {t : ℕ} {r : Registration}
    (hasks : run.Asks n) (hi : i < n) (hfind : find run.regs run.list_id = some r)
    (hhead : r.pp_head = some h) (hchain : Chain (run.comm i).next ((run.state i).head h) ys)
    (hlength : ys.length = n) (hn : n < 2 ^ 32) (ht : ys[i]? = some t)
    (hobj : run.lists.p_obj t ≠ 0) : run.answers i = run.report i n t := by
  obtain ⟨hack, hlen⟩ := hasks.request i hi
  have hindex : (UInt32.ofNat i).toNat = i := UInt32.toNat_ofNat_of_lt' (hi.trans hn)
  have hnode : (run.state i).node run.regs run.list_id (UInt32.ofNat i) =
      (.ok, ys.length, run.lists.p_obj t) :=
    Lists.node_of_chain hfind hhead hchain (by omega) (by rw [hindex]; exact ht) hobj
  have hshort : ¬ (run.frame i).len < 6 := by
    rw [UInt16.not_lt]
    exact hlen
  rw [answers, Lists.nodeAct, if_neg (not_not.mpr hack)]
  simp only [if_neg hshort, hasks.list i hi, hasks.index i hi, hnode, hlength]
  rfl

/-- A list that is not that of the commands -/
structure Apart (run : Run) (h : Head) (xs : List ℕ) (s : CommLists) : Prop where
  registered : ∃ ys, CommLists.Reordered run.o run.registered ys ∧ s.command.Holds ys ∧
    List.Disjoint ys xs
  chain : Chain s.next ({ run.lists with comm := s }.head h) xs

/-- No request changes another list. -/
theorem Apart.handled {h : Head} {xs : List ℕ} {s : CommLists} (hother : h ≠ .command)
    (hs : Apart run h xs s) (rs : List Request) : Apart run h xs (run.handled rs s) := by
  induction rs generalizing s with
  | nil => exact hs
  | cons r rs ih =>
    refine ih ?_
    obtain ⟨ys, hys, hholds, hdisjoint⟩ := hs.registered
    obtain ⟨ys', hys', hholds', hnext, hroute, -⟩ := handle_spec hys hholds r
    have hperm := hys'.perm.trans hys.perm.symm
    refine ⟨⟨ys', hys', hholds', fun t ht => hdisjoint (hperm.subset ht)⟩, ?_⟩
    have hchain := hs.chain.congr fun t ht => hnext t fun hin => hdisjoint hin ht
    cases h with
    | command => exact absurd rfl hother
    | route =>
      rw [Lists.head] at hchain ⊢
      exact hroute ▸ hchain
    | other list => exact hchain

theorem Apart.comm {h : Head} {xs : List ℕ} (hother : h ≠ .command)
    (hs : Apart run h xs run.lists.comm) (i : ℕ) : Apart run h xs (run.comm i) := by
  induction i with
  | zero => exact hs.handled hother _
  | succ i ih => exact ih.handled hother _

/-- The commands are reported one after the other. -/
theorem Progress.comm {n : ℕ} (hs : Progress run run.lists.comm []) (hsettled : run.Settled n)
    (hn : n ≤ run.registered.length) :
    ∀ i < n, ∃ nodes : List ℕ, nodes.length = i + 1 ∧ Progress run (run.comm i) nodes ∧
      ∀ j < i + 1, run.nodeAt .command j = nodes[j]? := by
  intro i hi
  induction i with
  | zero =>
    have hfirst := hs.handled (run.requests 0) fun r _ _ t _ => .inl rfl
    obtain ⟨t, ht, hprogress⟩ := hfirst.report (by simp; omega)
    refine ⟨[t], rfl, hprogress, ?_⟩
    intro j hj
    obtain rfl : j = 0 := by omega
    exact ht
  | succ i ih =>
    obtain ⟨nodes, hlen, hprogress, hnodes⟩ := ih (by omega)
    have hnext := hprogress.handled (run.requests (i + 1)) fun r hr hcomm t ht => by
      obtain ⟨j, hj, hreported⟩ := hsettled (i + 1) (Nat.succ_pos i) hi r hr hcomm t ht
      rw [hnodes j hj] at hreported
      exact .inr (List.mem_of_getElem? hreported)
    obtain ⟨t, ht, hprogress'⟩ := hnext.report (by omega)
    refine ⟨nodes ++ [t], by simp [hlen], hprogress', ?_⟩
    intro j hj
    rcases Nat.lt_succ_iff_lt_or_eq.mp hj with hlt | rfl
    · rw [hnodes j hlt, List.getElem?_append_left (by omega)]
    · rw [hlen] at ht
      rw [List.getElem?_append_right (by omega), hlen, Nat.sub_self]
      exact ht

/-- After the last node query every command is reported. -/
theorem Progress.all {ys : List ℕ}
    (hall : ∀ i < ys.length, ∃ nodes : List ℕ, nodes.length = i + 1 ∧
      Progress run (run.comm i) nodes ∧ ∀ j < i + 1, run.nodeAt .command j = nodes[j]?)
    (hys : CommLists.Reordered run.o run.registered ys) :
    ∃ nodes : List ℕ, nodes.length = ys.length ∧ nodes.Perm ys ∧
      ∀ j < ys.length, run.nodeAt .command j = nodes[j]? := by
  rcases List.eq_nil_or_concat' ys with rfl | ⟨init, last, rfl⟩
  · exact ⟨[], rfl, .rfl, fun j hj => absurd hj (Nat.not_lt_zero j)⟩
  · obtain ⟨nodes, hlen, ⟨zs, hzs, -, hperm⟩, hnodes⟩ := hall init.length (by simp)
    have hlength : nodes.length = (init ++ [last]).length := by simp [hlen]
    have hle : zs.length ≤ nodes.length := by
      rw [hlength, hzs.perm.length_eq, hys.perm.length_eq]
    rw [List.take_of_length_le hle] at hperm
    refine ⟨nodes, hlength, hperm.trans (hzs.perm.trans hys.perm.symm), ?_⟩
    intro j hj
    exact hnodes j (by simpa using hj)

/-- A client that asks for the nodes of a list one after the other gets each of them once: of any
list that is not that of the commands; and of that one, if every search after the first node
query finds what was reported already. -/
theorem enumerates (run : Run) (h : Head) (xs : List ℕ) (hstarts : run.Starts h xs)
    (hasks : run.Asks xs.length) (hsettled : h = .command → run.Settled xs.length) :
    run.Complete xs := by
  obtain ⟨r, hfind, hhead⟩ := hstarts.found
  obtain ⟨ys, hys, hholds, hsame, hdisjoint⟩ := hstarts.registered
  by_cases hcommand : h = .command
  · subst hcommand
    obtain rfl := hsame rfl
    have hlen := hys.perm.length_eq
    have hstart : Progress run run.lists.comm [] := ⟨ys, hys, hholds, .rfl⟩
    have hall := hstart.comm (hsettled rfl) hlen.le
    obtain ⟨nodes, hnodes, hperm, hreported⟩ := Progress.all hall hys
    refine ⟨nodes, hperm, ?_⟩
    intro i t ht
    have hi : i < ys.length := hnodes ▸ (List.getElem?_eq_some_iff.mp ht).1
    obtain ⟨_, _, ⟨zs, hzs, hholds', -⟩, -⟩ := hall i hi
    have hchain := chain_of_holds hholds'
    have hget : zs[i]? = some t := by
      rw [← hchain.nodeGet, ← ht]
      exact hreported i hi
    exact answers_eq hasks hi hfind hhead hchain (hzs.perm.length_eq.trans hlen.symm)
      hstarts.length hget (hstarts.object t (hperm.subset (List.mem_of_getElem? ht)))
  · have hstart : Apart run h xs run.lists.comm :=
      ⟨⟨ys, hys, hholds, hdisjoint hcommand⟩, hstarts.chain⟩
    refine ⟨xs, .rfl, ?_⟩
    intro i t ht
    have hi : i < xs.length := (List.getElem?_eq_some_iff.mp ht).1
    exact answers_eq hasks hi hfind hhead (hstart.comm hcommand i).chain rfl hstarts.length ht
      (hstarts.object t (List.mem_of_getElem? ht))

/-! ## Three commands -/

/-- The node query and two more commands, with the addresses of their objects -/
def demoLists : Lists where
  comm :=
    { commandFirst := some 0
      commandTail := some 2
      routeFirst := none
      routeTail := none
      next := fun t => [some 1, some 2, none].getD t none }
  first := fun _ => none
  p_obj := fun t => [0x20000100, 0x20000200, 0x20000300].getD t 0

def demoRegs : List (Option Registration) := [some ⟨some [99], some .command⟩]

def demoFrame (i : ℕ) : Packet := ⟨0xE8, 1, 2, 0, 1, 0, 1, 0x39, 0, 6, 0, 0, UInt8.ofNat i⟩

def demoData (i : ℕ) : Memory UInt8 := fun k => [1, 0, UInt8.ofNat i].getD k 0

/-- A client that asks for the commands, with the requests `between` -/
def demo (between : ℕ → List Request) : Run where
  o := ⟨fun t => [⟨1, 0x39, some 1⟩, ⟨1, 2, some 2⟩, ⟨1, 3, some 3⟩][t]?, fun _ => none⟩
  registered := [0, 1, 2]
  lists := demoLists
  regs := demoRegs
  list_id := 1
  between := between
  query := fun _ => .comm
  frame := demoFrame
  p_data := demoData
  my_printf := 0

theorem demo_starts (between : ℕ → List Request) : (demo between).Starts .command [0, 1, 2] where
  registered :=
    have hnext : ∀ i (h : i < [0, 1, 2].length), demoLists.comm.next [0, 1, 2][i] =
      [0, 1, 2][i + 1]? := by decide
    ⟨[0, 1, 2], ⟨.rfl, fun _ _ => rfl⟩, ⟨rfl, rfl, hnext, by decide⟩, fun _ => rfl,
      fun hne => absurd rfl hne⟩
  chain := .cons 0 _ (.cons 1 _ (.cons 2 _ .nil))
  nodup := by decide
  length := by decide
  object := show ∀ t ∈ [0, 1, 2], demoLists.p_obj t ≠ 0 by decide
  found := ⟨⟨some [99], some .command⟩, show find demoRegs 1 = some _ by decide, rfl⟩

theorem demo_asks (between : ℕ → List Request) : (demo between).Asks 3 where
  request := show ∀ i < 3, (demoFrame i).is_ack = 0 ∧ 6 ≤ (demoFrame i).len by decide
  list := show ∀ i < 3, Lib.readU16Le ((demoData i).slice 0 2) 0 = 1 by decide
  index := show ∀ i < 3, Lib.readU32Le ((demoData i).slice 2 4) 0 = UInt32.ofNat i by decide

/-- A command that was reported is searched for before the last node query. -/
def demoBetween (i : ℕ) : List Request := if i = 2 then [⟨.comm, 1, 2⟩] else []

theorem demo_settled : (demo demoBetween).Settled 3 := by
  have hquery : ∀ i, 0 < i → ∀ t,
      (demo demoBetween).registered.find? (isFor (demo demoBetween).o 1 0x39) = some t →
        ∃ j < i, (demo demoBetween).nodeAt .command j = some t := by
    intro i hi t ht
    obtain rfl : 0 = t := Option.some.inj (ht ▸ show some 0 = _ by decide)
    exact ⟨0, hi, by decide +kernel⟩
  intro i hpos hi r hr hcomm t ht
  obtain rfl | rfl : i = 1 ∨ i = 2 := by omega
  · obtain rfl : r = ⟨.comm, 1, 0x39⟩ := List.mem_singleton.mp hr
    exact hquery 1 hpos t ht
  · obtain rfl | hr := List.mem_cons.mp (show r ∈ [_, _] from hr)
    · obtain rfl : 1 = t := Option.some.inj (ht ▸ show some 1 = _ by decide)
      exact ⟨1, by decide, by decide +kernel⟩
    · obtain rfl := List.mem_singleton.mp hr
      exact hquery 2 hpos t ht

theorem enumerates_demo : (demo demoBetween).Settled 3 ∧ (demo demoBetween).Complete [0, 1, 2] :=
  ⟨demo_settled, enumerates (demo demoBetween) .command [0, 1, 2] (demo_starts _) (demo_asks _)
    fun _ => demo_settled⟩

/-- Commands that were not reported are searched for between the node queries. -/
def demoReordered (i : ℕ) : List Request := [⟨.comm, 1, if i = 1 then 3 else 2⟩]

/-- One of the commands is reported twice then, and another one never. -/
theorem not_complete_of_reordered :
    ¬ ∀ (run : Run) (h : Head) (xs : List ℕ), run.Starts h xs → run.Asks xs.length →
      run.Complete xs := by
  intro hall
  obtain ⟨nodes, hperm, hanswers⟩ :=
    hall (demo demoReordered) .command [0, 1, 2] (demo_starts _) (demo_asks _)
  obtain ⟨i, hi⟩ := List.mem_iff_getElem?.mp (hperm.symm.subset (show 1 ∈ [0, 1, 2] by decide))
  have hlt : i < 3 := (List.getElem?_eq_some_iff.mp hi).1.trans_eq hperm.length_eq
  have hnever : ∀ i < 3, (demo demoReordered).answers i ≠ (demo demoReordered).report i 3 1 := by
    decide +kernel
  exact hnever i hlt (hanswers i 1 hi)

end Run
end Atoman.SectionList
