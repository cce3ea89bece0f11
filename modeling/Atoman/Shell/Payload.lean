import Atoman.Shell.Handlers

/-!
# What a handler depends on

Two contexts are the same for a frame when they agree on the received bytes, on the
registered values and limits, and on the variables of the service.
-/

namespace Atoman.Shell
open Comm (Packet)
open Lib (Memory)

/-- The same values, limits and variables. -/
structure Shell.Same (items : List Item) (s s' : Shell) : Prop where
  memory : (cellsOf items).EqOn s.memory s'.memory
  rest : { s with memory := s'.memory } = s'

/-- The same received bytes besides. -/
structure Context.Same (items : List Item) (len : ℕ) (c c' : Context) : Prop where
  p_data : ∀ i < len, c.p_data i = c'.p_data i
  shell : c.shell.Same items c'.shell

/-- The bytes in front of the name. -/
def Handler.fields : Handler → ℕ
  | .read => 1
  | .write => 13
  | .waveEnable => 2
  | .waveStart => 1
  | .wavePeriod => 4

/-- The length of the name that a frame announces. -/
def Handler.announced (handler : Handler) (p_data : Memory UInt8) : ℕ :=
  match handler with
  | .read | .write | .waveEnable => (p_data 0).toNat
  | .waveStart | .wavePeriod => 0

/-- The payload ends in front of the fields, or of the name. -/
def Handler.TooShort (handler : Handler) (len : ℕ) (p_data : Memory UInt8) : Prop :=
  len < handler.fields ∨ len < handler.fields + handler.announced p_data

/-- The handler depends on the payload only, and a frame that is too short does nothing. -/
structure PayloadOnly (registry : Registry) (handler : Handler) (p_pack : Packet) (my_printf : ℕ)
    (c : Context) : Prop where
  same : ∀ c₁ c₂, c.Same registry.items p_pack.len.toNat c₁ →
    c.Same registry.items p_pack.len.toNat c₂ →
    (handler.act registry.items p_pack my_printf c₁).1.Same registry.items
      (handler.act registry.items p_pack my_printf c₂).1 ∧
    (handler.act registry.items p_pack my_printf c₁).2 =
      (handler.act registry.items p_pack my_printf c₂).2
  short : handler.TooShort p_pack.len.toNat c.p_data →
    ∀ c₁, c.Same registry.items p_pack.len.toNat c₁ →
      handler.act registry.items p_pack my_printf c₁ = (c₁.shell, [])

/-- The four bytes from `object` on are bytes of registered objects. -/
def Covered (items : List Item) (object : ℕ) : Prop := ∀ k < 4, object + k ∈ cellsOf items

/-- The received bytes do not rule out that the frame names the item. -/
def MayName (p : Item) (len : ℕ) (p_data : Memory UInt8) : Prop :=
  (0 < len → (p_data 0).toNat = p.p_name.length) ∧
    ∀ j < p.p_name.length, 13 + j < len → p.p_name[j]? = some (p_data (13 + j))

/-- When the payload determines what the handler does. -/
def Handler.Determined (handler : Handler) (items : List Item) (p_pack : Packet)
    (p_data : Memory UInt8) : Prop :=
  match handler with
  | .read =>
    p_pack.len.toNat = 1 + (p_data 0).toNat →
      ∀ p i, shellFind items p_data 1 (p_data 0) = some (p, i) →
      Covered items p.p_var
  | .write =>
    (handler.TooShort p_pack.len.toNat p_data → ∀ p ∈ items, ¬ MayName p p_pack.len.toNat p_data) ∧
    (¬ handler.TooShort p_pack.len.toNat p_data →
      ∀ p i, shellFind items p_data 13 (p_data 0) = some (p, i) →
      Covered items p.p_var ∧ Covered items p.p_max ∧ Covered items p.p_min)
  | .waveEnable =>
    p_pack.len.toNat = 2 + (p_data 0).toNat → (shellFind items p_data 2 (p_data 0)).isSome = true
  | .waveStart | .wavePeriod => True

section
variable {registry : Registry} {p_pack : Packet} {my_printf : ℕ} {c c₁ c₂ : Context} {s s' : Shell}
  {items : List Item} {len : ℕ}

theorem Shell.Same.symm (h : s.Same items s') : s'.Same items s := by
  obtain ⟨hmemory, hrest⟩ := h
  exact ⟨hmemory.symm, by rw [← hrest]⟩

theorem Shell.Same.refl (s : Shell) : s.Same items s := ⟨fun _ _ => rfl, rfl⟩

theorem Shell.Same.trans {s'' : Shell} (h : s.Same items s') (h' : s'.Same items s'') :
    s.Same items s'' := by
  obtain ⟨hmemory, hrest⟩ := h
  obtain ⟨hmemory', hrest'⟩ := h'
  refine ⟨hmemory.trans hmemory', ?_⟩
  rw [← hrest'] at hmemory' ⊢
  rw [← hrest]

/-- The memory changes by the same confined operation. -/
theorem Shell.Same.confined (h : s.Same items s') {f : Memory UInt8 → Memory UInt8}
    (hf : Memory.Confined (cellsOf items) f) :
    Shell.Same items { s with memory := f s.memory } { s' with memory := f s'.memory } := by
  obtain ⟨hmemory, hrest⟩ := h
  refine ⟨hf.eqOn _ _ hmemory, ?_⟩
  rw [← hrest]

theorem Context.Same.refl (c : Context) : c.Same items len c := ⟨fun _ _ => rfl, .refl _⟩

/-- Fields inside the payload. -/
theorem Context.Same.slice (h : c₁.Same items len c₂) (off n : ℕ) (hin : off + n ≤ len) :
    c₁.p_data.slice off n = c₂.p_data.slice off n :=
  Memory.slice_congr fun i _ hi => h.p_data i (by omega)

theorem Covered.slice {m m' : Memory UInt8} {object : ℕ} (h : Covered items object)
    (hm : (cellsOf items).EqOn m m') : m.slice object 4 = m'.slice object 4 :=
  Memory.slice_eqOn hm h

/-- The context with another value in a cell that belongs to nobody. -/
theorem exists_disturbed (c : Context) {object : ℕ} (h : ¬ Covered items object) :
    ∃ k < 4, ∃ m, object + k ∉ cellsOf items ∧ c.shell.memory (object + k) ≠ m (object + k) ∧
      c.Same items len { c with shell := { c.shell with memory := m } } := by
  unfold Covered at h
  push Not at h
  obtain ⟨k, hk, hout⟩ := h
  have : Nontrivial UInt8 := ⟨0, 1, by decide⟩
  obtain ⟨m, heq, hne⟩ := Memory.exists_eqOn_ne c.shell.memory hout
  exact ⟨k, hk, m, hout, hne, fun _ _ => rfl, heq, rfl⟩

/-! ## The payload determines the effect -/

/-- A length that fits the announced name is the same in both contexts. -/
theorem Context.Same.gate (h : c₁.Same items len c₂) {k : ℕ} (hk : 0 < k) :
    len = k + (c₁.p_data 0).toNat ↔ len = k + (c₂.p_data 0).toNat := by
  constructor
  · intro heq
    rw [← h.p_data 0 (by omega)]
    exact heq
  · intro heq
    rw [h.p_data 0 (by omega)]
    exact heq

theorem same_read (h : c₁.Same registry.items p_pack.len.toNat c₂)
    (hdet : Handler.read.Determined registry.items p_pack c₁.p_data) :
    (Handler.read.act registry.items p_pack my_printf c₁).1.Same registry.items
      (Handler.read.act registry.items p_pack my_printf c₂).1 ∧
    (Handler.read.act registry.items p_pack my_printf c₁).2 =
      (Handler.read.act registry.items p_pack my_printf c₂).2 := by
  have hgate := h.gate (k := 1) Nat.one_pos
  unfold Handler.act readDataAct
  dsimp only
  by_cases hlen : p_pack.len.toNat = 1 + (c₁.p_data 0).toNat
  · have hhead : c₁.p_data 0 = c₂.p_data 0 := h.p_data 0 (by omega)
    have hfind : shellFind registry.items c₁.p_data 1 (c₁.p_data 0) =
        shellFind registry.items c₂.p_data 1 (c₂.p_data 0) := by
      rw [← hhead]
      exact shellFind_congr (h.slice _ _ (Nat.le_of_eq hlen.symm))
    rw [if_neg (not_not.mpr hlen), if_neg (not_not.mpr (hgate.mp hlen)), ← hfind]
    cases hcase : shellFind registry.items c₁.p_data 1 (c₁.p_data 0) with
    | none => exact ⟨h.shell, rfl⟩
    | some found =>
      obtain ⟨p, i⟩ := found
      have hnext := h.shell.confined (registry.func_confined p (mem_of_shellFind hcase))
      refine ⟨hnext, ?_⟩
      dsimp only
      unfold readDataRet
      rw [(hdet hlen p i hcase).slice hnext.memory]
  · rw [if_pos hlen, if_pos (mt hgate.mpr hlen)]
    exact ⟨h.shell, rfl⟩

/-- No context of the frame names an item that the received bytes rule out. -/
theorem shellFind_eq_none (h : c₁.Same items len c₂)
    (hout : ∀ p ∈ items, ¬ MayName p len c₁.p_data) :
    shellFind items c₂.p_data 13 (c₂.p_data 0) = none := by
  cases hcase : shellFind items c₂.p_data 13 (c₂.p_data 0) with
  | none => rfl
  | some found =>
    obtain ⟨hsize, hname⟩ := name_of_shellFind hcase
    refine absurd ⟨fun hlen => ?_, fun j hj hin => ?_⟩ (hout found.1 (mem_of_shellFind hcase))
    · rw [h.p_data 0 hlen]
      exact hsize.symm
    · rw [hsize] at hj
      rw [h.p_data _ hin, hname, List.getElem?_eq_getElem (by simpa using hj), Memory.getElem_slice]

theorem same_write (h : c₁.Same registry.items p_pack.len.toNat c₂)
    (hdet : Handler.write.Determined registry.items p_pack c₁.p_data) :
    (Handler.write.act registry.items p_pack my_printf c₁).1.Same registry.items
      (Handler.write.act registry.items p_pack my_printf c₂).1 ∧
    (Handler.write.act registry.items p_pack my_printf c₁).2 =
      (Handler.write.act registry.items p_pack my_printf c₂).2 := by
  obtain ⟨hshort, hlong⟩ := hdet
  unfold Handler.act writeDataAct
  dsimp only
  by_cases hlen : Handler.write.TooShort p_pack.len.toNat c₁.p_data
  · rw [shellFind_eq_none (.refl c₁) (hshort hlen), shellFind_eq_none h (hshort hlen)]
    exact ⟨h.shell, rfl⟩
  · have hroom : 13 + (c₁.p_data 0).toNat ≤ p_pack.len.toNat :=
      Nat.le_of_not_lt fun hlt => hlen (Or.inr hlt)
    have hhead : c₁.p_data 0 = c₂.p_data 0 := h.p_data 0 (by omega)
    have hfind : shellFind registry.items c₁.p_data 13 (c₁.p_data 0) =
        shellFind registry.items c₂.p_data 13 (c₂.p_data 0) := by
      rw [← hhead]
      exact shellFind_congr (h.slice _ _ hroom)
    rw [← hfind]
    cases hcase : shellFind registry.items c₁.p_data 13 (c₁.p_data 0) with
    | none => exact ⟨h.shell, rfl⟩
    | some found =>
      obtain ⟨p, i⟩ := found
      have hin : p ∈ registry.items := mem_of_shellFind hcase
      obtain ⟨hvar, hmax, hmin⟩ := hlong hlen p i hcase
      dsimp only
      rw [← h.slice 1 4 (by omega), ← h.slice 5 4 (by omega), ← h.slice 9 4 (by omega)]
      have hstore := p.confined_store hin (c₁.p_data.slice 1 4) (c₁.p_data.slice 5 4)
        (c₁.p_data.slice 9 4)
      have hmemory := hstore.eqOn _ _ h.shell.memory
      refine ⟨h.shell.confined ((registry.func_confined p hin).comp hstore), ?_⟩
      unfold writeDataRet
      rw [hvar.slice hmemory, hmax.slice hmemory, hmin.slice hmemory]

theorem same_waveEnable (h : c₁.Same registry.items p_pack.len.toNat c₂)
    (hdet : Handler.waveEnable.Determined registry.items p_pack c₁.p_data) :
    (Handler.waveEnable.act registry.items p_pack my_printf c₁).1.Same registry.items
      (Handler.waveEnable.act registry.items p_pack my_printf c₂).1 ∧
    (Handler.waveEnable.act registry.items p_pack my_printf c₁).2 =
      (Handler.waveEnable.act registry.items p_pack my_printf c₂).2 := by
  have hgate := h.gate (k := 2) Nat.two_pos
  unfold Handler.act waveParamEnableAct
  dsimp only
  by_cases hlen : p_pack.len.toNat = 2 + (c₁.p_data 0).toNat
  · have hhead : c₁.p_data 0 = c₂.p_data 0 := h.p_data 0 (by omega)
    have hfind : shellFind registry.items c₁.p_data 2 (c₁.p_data 0) =
        shellFind registry.items c₂.p_data 2 (c₂.p_data 0) := by
      rw [← hhead]
      exact shellFind_congr (h.slice _ _ (Nat.le_of_eq hlen.symm))
    rw [if_neg (not_not.mpr hlen), if_neg (not_not.mpr (hgate.mp hlen)), ← hfind]
    obtain ⟨found, hcase⟩ := Option.isSome_iff_exists.mp (hdet hlen)
    rw [hcase]
    dsimp only
    rw [← h.p_data 1 (by omega)]
    obtain ⟨hmemory, hrest⟩ := h.shell
    refine ⟨⟨hmemory, ?_⟩, rfl⟩
    rw [← hrest]
  · rw [if_pos hlen, if_pos (mt hgate.mpr hlen)]
    exact ⟨h.shell, rfl⟩

theorem same_waveStart (h : c₁.Same registry.items p_pack.len.toNat c₂) :
    (Handler.waveStart.act registry.items p_pack my_printf c₁).1.Same registry.items
      (Handler.waveStart.act registry.items p_pack my_printf c₂).1 ∧
    (Handler.waveStart.act registry.items p_pack my_printf c₁).2 =
      (Handler.waveStart.act registry.items p_pack my_printf c₂).2 := by
  unfold Handler.act waveStartAct
  dsimp only
  split
  · exact ⟨h.shell, rfl⟩
  · next hlen =>
    rw [not_not] at hlen
    have hin : 0 < p_pack.len.toNat := by
      rw [hlen]
      decide
    obtain ⟨hmemory, hrest⟩ := h.shell
    refine ⟨⟨hmemory, ?_⟩, rfl⟩
    rw [h.p_data 0 hin, ← hrest]

theorem same_wavePeriod (h : c₁.Same registry.items p_pack.len.toNat c₂) :
    (Handler.wavePeriod.act registry.items p_pack my_printf c₁).1.Same registry.items
      (Handler.wavePeriod.act registry.items p_pack my_printf c₂).1 ∧
    (Handler.wavePeriod.act registry.items p_pack my_printf c₁).2 =
      (Handler.wavePeriod.act registry.items p_pack my_printf c₂).2 := by
  unfold Handler.act wavePeriodAct
  dsimp only
  split
  · exact ⟨h.shell, rfl⟩
  · next hlen =>
    rw [not_not] at hlen
    have hin : 0 + 4 ≤ p_pack.len.toNat := by
      rw [hlen]
      decide
    rw [h.slice _ _ hin]
    obtain ⟨hmemory, hrest⟩ := h.shell
    refine ⟨⟨hmemory, ?_⟩, rfl⟩
    rw [← hrest]

/-- A frame that is too short does nothing, if the bytes it has rule out every item. -/
theorem short_act {handler : Handler} (h : c.Same registry.items p_pack.len.toNat c₁)
    (hdet : handler.Determined registry.items p_pack c.p_data)
    (hshort : handler.TooShort p_pack.len.toNat c.p_data) :
    handler.act registry.items p_pack my_printf c₁ = (c₁.shell, []) := by
  have hgate {k : ℕ} (hk : 0 < k)
      (hlt : p_pack.len.toNat < k ∨ p_pack.len.toNat < k + (c.p_data 0).toNat) :
      p_pack.len.toNat ≠ k + (c₁.p_data 0).toNat := by
    intro heq
    have hle := (h.gate hk).mpr heq
    omega
  cases handler with
  | read => exact if_pos (hgate Nat.one_pos hshort)
  | waveEnable => exact if_pos (hgate Nat.two_pos hshort)
  | write =>
    unfold Handler.act writeDataAct
    rw [shellFind_eq_none h (hdet.1 hshort)]
  | waveStart =>
    refine if_pos fun hlen => ?_
    rw [hlen] at hshort
    have hfits : ¬ ((1 : UInt16).toNat < 1 ∨ (1 : UInt16).toNat < 1 + 0) := by decide
    exact hfits hshort
  | wavePeriod =>
    refine if_pos fun hlen => ?_
    rw [hlen] at hshort
    have hfits : ¬ ((4 : UInt16).toNat < 4 ∨ (4 : UInt16).toNat < 4 + 0) := by decide
    exact hfits hshort

/-- **Sufficient**: the payload determines the effect. -/
theorem Handler.Determined.payloadOnly {handler : Handler}
    (hdet : handler.Determined registry.items p_pack c.p_data) :
    PayloadOnly registry handler p_pack my_printf c := by
  have hsame (c' : Context) (h : c.Same registry.items p_pack.len.toNat c') :
      (handler.act registry.items p_pack my_printf c).1.Same registry.items
        (handler.act registry.items p_pack my_printf c').1 ∧
      (handler.act registry.items p_pack my_printf c).2 =
        (handler.act registry.items p_pack my_printf c').2 := by
    cases handler with
    | read => exact same_read h hdet
    | write => exact same_write h hdet
    | waveEnable => exact same_waveEnable h hdet
    | waveStart => exact same_waveStart h
    | wavePeriod => exact same_wavePeriod h
  refine ⟨fun c₁ c₂ h₁ h₂ => ?_, fun hshort c₁ h₁ => short_act h₁ hdet hshort⟩
  exact ⟨(hsame c₁ h₁).1.symm.trans (hsame c₂ h₂).1, (hsame c₁ h₁).2.symm.trans (hsame c₂ h₂).2⟩

/-! ## Nothing less does -/

/-- Frames that carry other data are other frames. -/
theorem answer_inj {cmd_word : UInt8} {p_data p_data' : List UInt8}
    (h : [answer p_pack cmd_word p_data my_printf] = [answer p_pack cmd_word p_data' my_printf]) :
    p_data = p_data' :=
  congrArg Reply.p_data (List.singleton_inj.mp h)

/-- A reply shows a cell that belongs to nobody. -/
theorem PayloadOnly.covered {handler : Handler}
    (h : PayloadOnly registry handler p_pack my_printf c)
    {object : ℕ} {f : Memory UInt8 → Memory UInt8} (hf : Memory.Confined (cellsOf registry.items) f)
    (hreply : ∀ m,
      (handler.act registry.items p_pack my_printf
        { c with shell := { c.shell with memory := m } }).2 =
        (handler.act registry.items p_pack my_printf c).2 →
      (f m).slice object 4 = (f c.shell.memory).slice object 4) :
    Covered registry.items object := by
  by_contra hout
  obtain ⟨k, hk, m, hcell, hne, hsame⟩ := exists_disturbed c hout
  have hslice := hreply m (h.same _ _ hsame (.refl c)).2
  have heq := Memory.eq_of_slice_eq hslice hk
  rw [hf.frame _ _ hcell, hf.frame _ _ hcell] at heq
  exact hne heq.symm

theorem PayloadOnly.read (h : PayloadOnly registry .read p_pack my_printf c) :
    Handler.read.Determined registry.items p_pack c.p_data := by
  intro hlen p i hfind
  refine h.covered (registry.func_confined p (mem_of_shellFind hfind)) fun m hreply => ?_
  unfold Handler.act readDataAct at hreply
  dsimp only at hreply
  rw [if_neg (not_not.mpr hlen), if_neg (not_not.mpr hlen), hfind] at hreply
  have hdata := answer_inj hreply
  unfold readDataRet at hdata
  exact List.append_cancel_left (List.append_cancel_right hdata)

/-- The bytes of a context that names the item. -/
def naming (p : Item) (len : ℕ) (p_data : Memory UInt8) : Memory UInt8 := fun i =>
  if i < len then p_data i
  else if i = 0 then UInt8.ofNat p.p_name.length
  else p.p_name.getD (i - 13) 0

theorem shellFind_naming {p : Item} {p_data : Memory UInt8} (hin : p ∈ items)
    (hname : MayName p len p_data) :
    (shellFind items (naming p len p_data) 13 (naming p len p_data 0)).isSome = true := by
  have hsize : (naming p len p_data 0).toNat = p.p_name.length := by
    unfold naming
    split
    · next hlen => exact hname.1 hlen
    · have hle := p.p_name_size_le
      unfold strSizeMax at hle
      rw [if_pos rfl, UInt8.toNat_ofNat_of_lt' (by show _ < 256; omega)]
  refine shellFind_isSome hin hsize.symm (List.ext_getElem (by simp [hsize]) fun j hj hj' => ?_)
  rw [Memory.getElem_slice]
  unfold naming
  split
  · next hlen =>
    have hbyte := hname.2 j hj hlen
    rw [List.getElem?_eq_getElem hj] at hbyte
    exact Option.some.inj hbyte
  · rw [if_neg (by omega), Nat.add_sub_cancel_left, List.getD_eq_getElem?_getD,
      List.getElem?_eq_getElem hj, Option.getD_some]

theorem PayloadOnly.write (h : PayloadOnly registry .write p_pack my_printf c) :
    Handler.write.Determined registry.items p_pack c.p_data := by
  refine ⟨fun hshort p hin hname => ?_, fun _ p i hfind => ?_⟩
  · set p_data := naming p p_pack.len.toNat c.p_data
    have hquiet := h.short hshort { c with p_data := p_data }
      ⟨fun i hi => (if_pos hi).symm, .refl _⟩
    obtain ⟨found, hfind⟩ := Option.isSome_iff_exists.mp (shellFind_naming hin hname)
    unfold Handler.act writeDataAct at hquiet
    dsimp only at hquiet
    rw [hfind] at hquiet
    exact nomatch (Prod.ext_iff.mp hquiet).2
  · have hstore :=
      p.confined_store (mem_of_shellFind hfind) (c.p_data.slice 1 4) (c.p_data.slice 5 4)
      (c.p_data.slice 9 4)
    have hparts {m m' : Memory UInt8} (heq : writeDataRet p m = writeDataRet p m') :
        m.slice p.p_var 4 = m'.slice p.p_var 4 ∧ m.slice p.p_max 4 = m'.slice p.p_max 4 ∧
          m.slice p.p_min 4 = m'.slice p.p_min 4 := by
      unfold writeDataRet at heq
      have hlimits := List.append_cancel_right heq
      obtain ⟨hfront, hmin⟩ := List.append_inj' hlimits (by simp)
      obtain ⟨hvalue, hmax⟩ := List.append_inj' hfront (by simp)
      exact ⟨List.append_cancel_left hvalue, hmax, hmin⟩
    have hreply (m : Memory UInt8)
        (heq : (Handler.write.act registry.items p_pack my_printf
            { c with shell := { c.shell with memory := m } }).2 =
          (Handler.write.act registry.items p_pack my_printf c).2) :
        writeDataRet p (p.store (c.p_data.slice 1 4) (c.p_data.slice 5 4) (c.p_data.slice 9 4) m) =
          writeDataRet p (p.store (c.p_data.slice 1 4) (c.p_data.slice 5 4) (c.p_data.slice 9 4)
            c.shell.memory) := by
      unfold Handler.act writeDataAct at heq
      dsimp only at heq
      rw [hfind] at heq
      exact answer_inj heq
    refine ⟨?_, ?_, ?_⟩
    · exact h.covered hstore fun m heq => (hparts (hreply m heq)).1
    · exact h.covered hstore fun m heq => (hparts (hreply m heq)).2.1
    · exact h.covered hstore fun m heq => (hparts (hreply m heq)).2.2

theorem PayloadOnly.waveEnable (h : PayloadOnly registry .waveEnable p_pack my_printf c) :
    Handler.waveEnable.Determined registry.items p_pack c.p_data := by
  intro hlen
  rw [← Option.not_isNone, Bool.not_eq_true', ← Bool.not_eq_true, Option.isNone_iff_eq_none]
  intro hnone
  have hreply (stack : UInt8) :
      (Handler.waveEnable.act registry.items p_pack my_printf { c with stack := stack }).2 =
        [answer p_pack 5 [stack] my_printf] := by
    unfold Handler.act waveParamEnableAct
    dsimp only
    rw [if_neg (not_not.mpr hlen), hnone]
  have hsame (stack : UInt8) : c.Same registry.items p_pack.len.toNat { c with stack := stack } :=
    ⟨fun _ _ => rfl, .refl _⟩
  have heq := (h.same _ _ (hsame 0) (hsame 1)).2
  rw [hreply, hreply] at heq
  exact absurd (answer_inj heq) (by decide)

/-- **Payload only**: a handler depends on the received payload exactly when a reply reads no
byte next to a variable or a limit, a frame to write that is too short cannot name an item,
and a wave frame names one. -/
theorem shell_handlers_depend_on_payload (registry : Registry) (handler : Handler) (p_pack : Packet)
    (my_printf : ℕ) (c : Context) :
    PayloadOnly registry handler p_pack my_printf c ↔
      handler.Determined registry.items p_pack c.p_data := by
  refine ⟨fun h => ?_, fun hdet => hdet.payloadOnly⟩
  cases handler with
  | read => exact h.read
  | write => exact h.write
  | waveEnable => exact h.waveEnable
  | waveStart | wavePeriod => trivial

end

theorem demoName_le : ([103] : List UInt8).length ≤ strSizeMax := by decide

/-- A byte variable. -/
def demoItem : Item := ⟨[103], 100, .uint8, 104, 108, none, by decide⟩

def demoRegistry : Registry where
  items := [demoItem]
  func_confined := fun _ hin => by
    rw [List.mem_singleton.mp hin]
    exact Memory.confined_id _

/-- The name of the variable, a name that nobody has, and a frame that has no bytes. -/
def demoContext (p_data : List UInt8) : Context where
  p_data := fun i => p_data.getD i 0
  stack := 0
  shell := ⟨fun _ => 0, fun _ => 0, 0, 300, none, 0, 0, 0xE8, 1, 0⟩

def demoPacket (len : UInt16) : Packet := ⟨0xE8, 0, 2, 0, 1, 0, 1, 2, 0, len, 0, 0, 0⟩

/-- The reply to a read shows the byte behind the variable, a write without a payload takes
what an earlier frame left in the buffer, and the answer to an unknown name is what the
stack held. -/
theorem handlers_show_other_memory :
    ¬ PayloadOnly demoRegistry .read (demoPacket 2) 0 (demoContext [1, 103]) ∧
    ¬ PayloadOnly demoRegistry .write (demoPacket 0) 0 (demoContext []) ∧
    ¬ PayloadOnly demoRegistry .waveEnable (demoPacket 3) 0 (demoContext [1, 1, 104]) := by
  refine ⟨fun h => ?_, fun h => ?_, fun h => ?_⟩
  · obtain ⟨p, hin, object, hobject, k, hk, heq⟩ := h.read (by decide) demoItem 0 rfl 1 (by decide)
    rw [List.mem_singleton.mp hin] at hobject hk
    have hone : k < 1 := hk
    have hnext : 100 + 1 = object + k := heq
    simp only [demoItem, List.mem_cons, List.not_mem_nil, or_false] at hobject
    omega
  · exact h.write.1 (Or.inl (by decide)) demoItem List.mem_cons_self
      ⟨fun hlt => absurd hlt (by decide), fun j _ hlt => absurd hlt (Nat.not_lt_zero _)⟩
  · exact absurd (h.waveEnable (by decide)) (by decide +kernel)

end Atoman.Shell
