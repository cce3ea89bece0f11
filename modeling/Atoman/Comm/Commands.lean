import Atoman.Comm.Network
import Atoman.Lib.SearchList

/-!
# The list of registered commands in memory

The items of the section lists lie in memory, each with a link to the next one of its list.
`comm_init` builds the list of the commands and that of the routes; every search for a command
moves the item that it finds to the front. The searches that follow do not see it.
-/

namespace Atoman.Comm
open Lib

/-- `section_com_t` -/
structure SectionCom where
  cmdSet : UInt8
  cmdWord : UInt8
  func : Option ℕ
  deriving DecidableEq, Repr

/-- The types of section records that `comm_init` tells apart. -/
inductive SectionType
  | comm | commRoute | other
  deriving DecidableEq, Repr

/-- `reg_section_t`; `pStr` is the address of a section item. -/
structure RegSection where
  sectionType : SectionType
  pStr : Option ℕ
  deriving DecidableEq, Repr

/-- What the `p_obj` of each section item leads to, by the list that the item is for. -/
structure Objects where
  com : ℕ → Option SectionCom
  route : ℕ → Option Route

/-- `p_comm_command_first`, `p_comm_route_first`, the two tails, and the `p_next` of every section
item -/
structure CommLists where
  commandFirst : Option ℕ
  commandTail : Option ℕ
  routeFirst : Option ℕ
  routeTail : Option ℕ
  next : ℕ → Option ℕ

namespace CommLists
variable (o : Objects)

/-- The list of the commands -/
def command (s : CommLists) : SearchList ℕ := ⟨s.commandFirst, s.commandTail, s.next⟩

/-- The list of the routes -/
def route (s : CommLists) : SearchList ℕ := ⟨s.routeFirst, s.routeTail, s.next⟩

def setCommand (s : CommLists) (l : SearchList ℕ) : CommLists :=
  { s with commandFirst := l.first, commandTail := l.tail, next := l.next }

def setRoute (s : CommLists) (l : SearchList ℕ) : CommLists :=
  { s with routeFirst := l.first, routeTail := l.tail, next := l.next }

/-- `comm_insert` -/
def commInsert (s : CommLists) (item : Option ℕ) : CommLists :=
  match item with
  | none => s
  | some t => if (o.com t).isNone then s else s.setCommand (s.command.append t)

/-- `comm_route_insert` -/
def commRouteInsert (s : CommLists) (item : Option ℕ) : CommLists :=
  match item with
  | none => s
  | some t => if (o.route t).isNone then s else s.setRoute (s.route.append t)

/-- One section record of the loop of `comm_init` -/
def commRegister (s : CommLists) (r : RegSection) : CommLists :=
  match r.sectionType with
  | .comm => s.commInsert o r.pStr
  | .commRoute => s.commRouteInsert o r.pStr
  | .other => s

/-- `comm_init` -/
def commInit (regs : List RegSection) (s : CommLists) : CommLists :=
  regs.foldl (commRegister o) ⟨none, none, none, none, s.next⟩

/-- The item is registered for a command. -/
def isFor (cmdSet cmdWord : UInt8) (t : ℕ) : Bool :=
  (o.com t).any fun p => p.cmdSet == cmdSet && p.cmdWord == cmdWord

/-- The callback of an item, if a search found one -/
def funcOf (item : Option ℕ) : Option ℕ := item.bind fun t => (o.com t).bind (·.func)

/-- `find_comm_func`, through at most `n` items -/
def findCommFunc (n : ℕ) (s : CommLists) (cmdSet cmdWord : UInt8) : CommLists × Option ℕ :=
  let found := SearchList.access (isFor o cmdSet cmdWord) n s.command
  (s.setCommand found.1, funcOf o found.2)

/-- `comm_v1_find_func`, through at most `n` items -/
def commV1FindFunc (n : ℕ) (s : CommLists) (cmdSet cmdWord : UInt8) : Option ℕ :=
  funcOf o (SearchList.find (isFor o cmdSet cmdWord) s.next n s.commandFirst)

/-! ## The registered items -/

/-- The item that a section record adds to the list of the commands. -/
def commandOf (r : RegSection) : Option ℕ :=
  if r.sectionType = .comm then r.pStr.filter fun t => (o.com t).isSome else none

/-- The item that a section record adds to the list of the routes. -/
def routeOf (r : RegSection) : Option ℕ :=
  if r.sectionType = .commRoute then r.pStr.filter fun t => (o.route t).isSome else none

/-- The registered commands, in the order of the section. -/
def commands (regs : List RegSection) : List ℕ := regs.filterMap (commandOf o)

/-- The registered routes, in the order of the section. -/
def routes (regs : List RegSection) : List ℕ := regs.filterMap (routeOf o)

variable {o}

/-- A section record adds one item to one of the lists, or none. -/
theorem commRegister_cases (s : CommLists) (r : RegSection) :
    (∃ t, commandOf o r = some t ∧ routeOf o r = none ∧
        s.commRegister o r = s.setCommand (s.command.append t)) ∨
      (∃ t, commandOf o r = none ∧ routeOf o r = some t ∧
        s.commRegister o r = s.setRoute (s.route.append t)) ∨
      (commandOf o r = none ∧ routeOf o r = none ∧ s.commRegister o r = s) := by
  obtain ⟨sectionType, pStr⟩ := r
  cases pStr with
  | none =>
    cases sectionType <;> simp [commandOf, routeOf, commRegister, commInsert, commRouteInsert]
  | some t =>
    cases sectionType with
    | comm =>
      cases h : o.com t <;>
        simp [commandOf, routeOf, commRegister, commInsert, h, Option.filter]
    | commRoute =>
      cases h : o.route t <;>
        simp [commandOf, routeOf, commRegister, commRouteInsert, h, Option.filter]
    | other => simp [commandOf, routeOf, commRegister]

/-- Both lists hold what was registered. -/
structure Registered (s : CommLists) (xs ys : List ℕ) : Prop where
  command : s.command.Holds xs
  route : s.route.Holds ys

theorem Registered.appendCommand {s : CommLists} {xs ys : List ℕ} {t : ℕ} (h : Registered s xs ys)
    (hdisjoint : List.Disjoint xs ys) (ht : t ∉ xs) (ht' : t ∉ ys) :
    Registered (s.setCommand (s.command.append t)) (xs ++ [t]) ys where
  command := h.command.append ht
  route := by
    refine h.route.congr fun u hu => SearchList.append_next ?_ ?_
    · rintro rfl
      exact ht' hu
    · intro htail
      rw [h.command.tail] at htail
      exact hdisjoint (List.mem_of_getLast? htail) hu

theorem Registered.appendRoute {s : CommLists} {xs ys : List ℕ} {t : ℕ} (h : Registered s xs ys)
    (hdisjoint : List.Disjoint xs ys) (ht : t ∉ xs) (ht' : t ∉ ys) :
    Registered (s.setRoute (s.route.append t)) xs (ys ++ [t]) where
  command := by
    refine h.command.congr fun u hu => SearchList.append_next ?_ ?_
    · rintro rfl
      exact ht hu
    · intro htail
      rw [h.route.tail] at htail
      exact hdisjoint hu (List.mem_of_getLast? htail)
  route := h.route.append ht'

/-- **Registering** appends to the lists in the order of the section. -/
theorem registered_foldl (regs : List RegSection) {s : CommLists} {xs ys : List ℕ}
    (h : Registered s xs ys) (hxs : (xs ++ commands o regs).Nodup)
    (hys : (ys ++ routes o regs).Nodup)
    (hdisjoint : List.Disjoint (xs ++ commands o regs) (ys ++ routes o regs)) :
    Registered (regs.foldl (commRegister o) s) (xs ++ commands o regs) (ys ++ routes o regs) := by
  induction regs generalizing s xs ys with
  | nil => simpa [commands, routes] using h
  | cons r regs ih =>
    have hold : List.Disjoint xs ys := fun t ht ht' =>
      hdisjoint (List.mem_append_left _ ht) (List.mem_append_left _ ht')
    rw [List.foldl_cons]
    rcases s.commRegister_cases (o := o) r with ⟨t, hc, hr, hs⟩ | ⟨t, hc, hr, hs⟩ | ⟨hc, hr, hs⟩
    · have hcommands : xs ++ commands o (r :: regs) = xs ++ [t] ++ commands o regs := by
        simp [commands, hc]
      have hroutes : routes o (r :: regs) = routes o regs := by simp [routes, hr]
      rw [hcommands] at hxs hdisjoint ⊢
      rw [hroutes] at hys hdisjoint ⊢
      rw [hs]
      refine ih (h.appendCommand hold ?_ ?_) hxs hys hdisjoint
      · exact fun ht => (List.nodup_append.mp hxs.of_append_left).2.2 t ht t (by simp) rfl
      · exact fun ht => hdisjoint (a := t) (by simp) (List.mem_append_left _ ht)
    · have hcommands : commands o (r :: regs) = commands o regs := by simp [commands, hc]
      have hroutes : ys ++ routes o (r :: regs) = ys ++ [t] ++ routes o regs := by
        simp [routes, hr]
      rw [hcommands] at hxs hdisjoint ⊢
      rw [hroutes] at hys hdisjoint ⊢
      rw [hs]
      refine ih (h.appendRoute hold ?_ ?_) hxs hys hdisjoint
      · exact fun ht => hdisjoint (a := t) (List.mem_append_left _ ht) (by simp)
      · exact fun ht => (List.nodup_append.mp hys.of_append_left).2.2 t ht t (by simp) rfl
    · have hcommands : commands o (r :: regs) = commands o regs := by simp [commands, hc]
      have hroutes : routes o (r :: regs) = routes o regs := by simp [routes, hr]
      rw [hcommands] at hxs hdisjoint ⊢
      rw [hroutes] at hys hdisjoint ⊢
      rw [hs]
      exact ih h hxs hys hdisjoint

/-- The section items of the commands and the routes are different variables. -/
structure Distinct (o : Objects) (regs : List RegSection) : Prop where
  commands : (commands o regs).Nodup
  routes : (routes o regs).Nodup
  disjoint : List.Disjoint (CommLists.commands o regs) (CommLists.routes o regs)

/-- `comm_init` builds both lists anew, whatever the links were. -/
theorem registered_commInit {regs : List RegSection} (h : Distinct o regs) (s : CommLists) :
    Registered (s.commInit o regs) (commands o regs) (routes o regs) := by
  have hempty : Registered ⟨none, none, none, none, s.next⟩ [] [] :=
    ⟨SearchList.holds_nil _, SearchList.holds_nil _⟩
  exact registered_foldl regs hempty h.commands h.routes h.disjoint

/-! ## Searching -/

/-- Items for different commands do not match. -/
theorem isFor_of_ne {cmdSet cmdWord cmdSet' cmdWord' : UInt8}
    (hne : (cmdSet, cmdWord) ≠ (cmdSet', cmdWord')) {t : ℕ} (h : isFor o cmdSet cmdWord t = true) :
    isFor o cmdSet' cmdWord' t = false := by
  rw [isFor] at h ⊢
  cases hcom : o.com t with
  | none => rfl
  | some p =>
    simp only [hcom, Option.any_some, Bool.and_eq_true, beq_iff_eq] at h ⊢
    rw [h.1, h.2]
    simpa [Prod.ext_iff] using hne

/-- A list that holds the registered commands, those for each command in the order in which
they were registered. -/
structure Reordered (o : Objects) (registered xs : List ℕ) : Prop where
  perm : xs.Perm registered
  stable : ∀ cmdSet cmdWord,
    xs.filter (isFor o cmdSet cmdWord) = registered.filter (isFor o cmdSet cmdWord)

/-- The first match is the one that was registered first. -/
theorem Reordered.find? {registered xs : List ℕ} (h : Reordered o registered xs)
    (cmdSet cmdWord : UInt8) :
    xs.find? (isFor o cmdSet cmdWord) = registered.find? (isFor o cmdSet cmdWord) := by
  rw [← List.head?_filter, h.stable, List.head?_filter]

/-- A search reorders the list, but not the items of one command. -/
theorem Reordered.accessed {registered xs : List ℕ} (h : Reordered o registered xs)
    (cmdSet cmdWord : UInt8) :
    Reordered o registered (SearchList.accessed (isFor o cmdSet cmdWord) xs) where
  perm := SearchList.perm_accessed.trans h.perm
  stable := by
    intro cmdSet' cmdWord'
    by_cases heq : (cmdSet, cmdWord) = (cmdSet', cmdWord')
    · obtain ⟨rfl, rfl⟩ := Prod.mk.inj heq
      rw [SearchList.filter_accessed_self, h.stable]
    · rw [SearchList.filter_accessed_of_disjoint fun t => isFor_of_ne heq, h.stable]

/-- **Searching** for a command. -/
theorem findCommFunc_spec {registered xs : List ℕ} {n : ℕ} {s : CommLists}
    (hn : registered.length ≤ n) (hxs : Reordered o registered xs) (h : s.command.Holds xs)
    (cmdSet cmdWord : UInt8) :
    (s.findCommFunc o n cmdSet cmdWord).1.command.Holds
        (SearchList.accessed (isFor o cmdSet cmdWord) xs) ∧
      (s.findCommFunc o n cmdSet cmdWord).2 =
        funcOf o (registered.find? (isFor o cmdSet cmdWord)) := by
  obtain ⟨hholds, hfound⟩ := h.access (isFor o cmdSet cmdWord) (hxs.perm.length_eq ▸ hn)
  refine ⟨hholds, ?_⟩
  rw [findCommFunc, hfound, hxs.find?]

/-- The state after some searches -/
def searches (o : Objects) (n : ℕ) (s : CommLists) (cmds : List (UInt8 × UInt8)) : CommLists :=
  cmds.foldl (fun s cmd => (s.findCommFunc o n cmd.1 cmd.2).1) s

theorem holds_searches {registered : List ℕ} {n : ℕ} (hn : registered.length ≤ n)
    (cmds : List (UInt8 × UInt8)) {s : CommLists} {xs : List ℕ} (hxs : Reordered o registered xs)
    (h : s.command.Holds xs) :
    ∃ xs, Reordered o registered xs ∧ (s.searches o n cmds).command.Holds xs := by
  induction cmds generalizing s xs with
  | nil => exact ⟨xs, hxs, h⟩
  | cons cmd cmds ih =>
    exact ih (hxs.accessed cmd.1 cmd.2) (findCommFunc_spec hn hxs h cmd.1 cmd.2).1

/-- The reordering of the commands by the searches is invisible: the list holds the registered
items, its last one is the recorded tail, and a search finds the callback that a plain search
in the order of the registration finds. -/
theorem search_invisible (regs : List RegSection) (hdistinct : Distinct o regs) (s : CommLists)
    (n : ℕ) (hn : (commands o regs).length ≤ n) (cmds : List (UInt8 × UInt8)) :
    (∃ xs, ((s.commInit o regs).searches o n cmds).command.Holds xs ∧
        xs.Perm (commands o regs) ∧
        ((s.commInit o regs).searches o n cmds).commandTail = xs.getLast?) ∧
      ∀ cmdSet cmdWord,
        (((s.commInit o regs).searches o n cmds).findCommFunc o n cmdSet cmdWord).2 =
          (s.commInit o regs).commV1FindFunc o n cmdSet cmdWord := by
  have hinit := (registered_commInit hdistinct s).command
  obtain ⟨xs, hxs, hholds⟩ := holds_searches hn cmds ⟨.rfl, fun _ _ => rfl⟩ hinit
  refine ⟨⟨xs, hholds, hxs.perm, hholds.tail⟩, ?_⟩
  intro cmdSet cmdWord
  rw [(findCommFunc_spec hn hxs hholds cmdSet cmdWord).2, commV1FindFunc]
  exact congrArg (funcOf o) (hinit.find _ hn).symm

/-- Two callbacks for one command, and a third one searched for in between -/
theorem search_invisible_twice :
    let o : Objects :=
      ⟨fun t => [⟨1, 1, some 7⟩, ⟨1, 2, some 8⟩, ⟨1, 1, some 9⟩][t]?, fun _ => none⟩
    let regs : List RegSection := [⟨.comm, some 0⟩, ⟨.comm, some 1⟩, ⟨.comm, some 2⟩]
    let s : CommLists := ⟨none, none, none, none, fun _ => none⟩
    (∃ xs, ((s.commInit o regs).searches o 3 [(1, 2), (1, 1)]).command.Holds xs ∧
        xs.Perm (commands o regs) ∧
        ((s.commInit o regs).searches o 3 [(1, 2), (1, 1)]).commandTail = xs.getLast?) ∧
      ∀ cmdSet cmdWord,
        (((s.commInit o regs).searches o 3 [(1, 2), (1, 1)]).findCommFunc o 3 cmdSet cmdWord).2 =
          (s.commInit o regs).commV1FindFunc o 3 cmdSet cmdWord :=
  search_invisible [⟨.comm, some 0⟩, ⟨.comm, some 1⟩, ⟨.comm, some 2⟩]
    ⟨by decide, by decide, List.disjoint_nil_right _⟩ _ 3 (by decide) _

/-! ## The list of items as the parser sees it -/

/-- An item with the object that it leads to -/
def itemOf (o : Objects) (t : ℕ) : Option CommandItem :=
  (o.com t).map fun p => ⟨t, p.cmdSet, p.cmdWord, p.func⟩

/-- The items of the list, with the recorded tail -/
def items (o : Objects) (s : CommLists) (xs : List ℕ) : CommandList :=
  ⟨xs.filterMap (itemOf o), s.commandTail⟩

end CommLists

/-- The search goes past the items for other commands. -/
theorem findCommFuncFrom_append {tail : Option ℕ} {cmdSet cmdWord : UInt8}
    {is js : List CommandItem} (his : ∀ i ∈ is, i.isFor cmdSet cmdWord = false)
    (before : List CommandItem) :
    findCommFuncFrom tail cmdSet cmdWord before (is ++ js) =
      findCommFuncFrom tail cmdSet cmdWord (is.reverse ++ before) js := by
  induction is generalizing before with
  | nil => rfl
  | cons i is ih =>
    have hi : ¬ i.isFor cmdSet cmdWord = true := by simp [his i (by simp)]
    conv_lhs => rw [List.cons_append]; unfold findCommFuncFrom
    rw [if_neg hi, ih (fun j hj => his j (List.mem_cons_of_mem _ hj)), List.reverse_cons,
      List.append_assoc]
    rfl

namespace CommLists
variable {o : Objects}

theorem isFor_itemOf {cmdSet cmdWord : UInt8} {t : ℕ} {i : CommandItem} (h : itemOf o t = some i) :
    i.item = t ∧ i.isFor cmdSet cmdWord = isFor o cmdSet cmdWord t ∧
      funcOf o (some t) = i.func := by
  obtain ⟨p, hp, rfl⟩ := Option.map_eq_some_iff.mp h
  simp [CommandItem.isFor, isFor, funcOf, hp]

/-- The items of nodes that do not match do not match. -/
theorem isFor_filterMap {cmdSet cmdWord : UInt8} {ts : List ℕ}
    (h : ∀ t ∈ ts, isFor o cmdSet cmdWord t = false) :
    ∀ i ∈ ts.filterMap (itemOf o), i.isFor cmdSet cmdWord = false := by
  intro i hi
  obtain ⟨t, ht, hitem⟩ := List.mem_filterMap.mp hi
  rw [(isFor_itemOf hitem).2.1, h t ht]

/-- Where the last node of a list is after one has moved to the front. -/
theorem getLast?_toFront {ys zs : List ℕ} {u t : ℕ} (h : (ys ++ [u] ++ t :: zs).Nodup) :
    (t :: (ys ++ [u] ++ zs)).getLast? =
      if (ys ++ [u] ++ t :: zs).getLast? = some t then some u
      else (ys ++ [u] ++ t :: zs).getLast? := by
  rcases List.eq_nil_or_concat' zs with rfl | ⟨zs, e, rfl⟩
  · simp [List.getLast?_append, List.getLast?_cons]
  · have hne : e ≠ t := by
      rw [List.nodup_middle, List.nodup_cons] at h
      rintro rfl
      exact h.1 (by simp)
    have hlast : (ys ++ [u] ++ t :: (zs ++ [e])).getLast? = some e := by
      rw [← List.cons_append, ← List.append_assoc, List.getLast?_concat]
    rw [hlast, if_neg fun heq => hne (Option.some.inj heq), ← List.append_assoc, ← List.cons_append,
      List.getLast?_concat]

/-- The search in memory is that of the items that it holds. -/
theorem findCommFunc_items {s : CommLists} {xs : List ℕ} {n : ℕ} (hn : xs.length ≤ n)
    (h : s.command.Holds xs) (hobj : ∀ t ∈ xs, (o.com t).isSome) (cmdSet cmdWord : UInt8) :
    (s.items o xs).findCommFunc cmdSet cmdWord =
      ((s.findCommFunc o n cmdSet cmdWord).2,
        (s.findCommFunc o n cmdSet cmdWord).1.items o
          (SearchList.accessed (isFor o cmdSet cmdWord) xs)) := by
  obtain ⟨hholds, hfound⟩ := h.access (isFor o cmdSet cmdWord) hn
  have htail : s.commandTail = xs.getLast? := h.tail
  have htail' : (s.findCommFunc o n cmdSet cmdWord).1.commandTail =
      (SearchList.accessed (isFor o cmdSet cmdWord) xs).getLast? := hholds.tail
  rw [CommandList.findCommFunc, items, items, htail', findCommFunc, hfound]
  cases hfind : xs.find? (isFor o cmdSet cmdWord) with
  | none =>
    rw [SearchList.accessed_of_find?_eq_none hfind, ← htail]
    have hnone := @findCommFuncFrom_append s.commandTail cmdSet cmdWord _ []
      (isFor_filterMap (o := o) (by simpa using hfind)) []
    rw [List.append_nil] at hnone
    simp only [hnone]
    simp [findCommFuncFrom, funcOf]
  | some t =>
    obtain ⟨ht, ys, zs, rfl, hys⟩ := List.find?_eq_some_iff_append.mp hfind
    have hys : ∀ y ∈ ys, isFor o cmdSet cmdWord y = false := by simpa using hys
    obtain ⟨p, hp⟩ := Option.isSome_iff_exists.mp (hobj t (by simp))
    have hitem : itemOf o t = some ⟨t, p.cmdSet, p.cmdWord, p.func⟩ := by rw [itemOf, hp]; rfl
    obtain ⟨-, hfor, hfunc⟩ := @isFor_itemOf o cmdSet cmdWord t _ hitem
    rw [SearchList.accessed_of_split rfl hys ht, List.filterMap_append,
      List.filterMap_cons_some hitem, findCommFuncFrom_append (isFor_filterMap hys), hfunc]
    unfold findCommFuncFrom
    rw [if_pos (hfor.trans ht), htail]
    rcases List.eq_nil_or_concat' ys with rfl | ⟨ys, u, rfl⟩
    · simp [hitem]
    · obtain ⟨p', hp'⟩ := Option.isSome_iff_exists.mp (hobj u (by simp))
      have hitem' : itemOf o u = some ⟨u, p'.cmdSet, p'.cmdWord, p'.func⟩ := by
        rw [itemOf, hp']
        rfl
      rw [getLast?_toFront h.nodup]
      simp [List.filterMap_append, hitem, hitem']

end CommLists
end Atoman.Comm
