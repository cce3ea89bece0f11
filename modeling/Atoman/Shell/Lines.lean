import Atoman.Lib.CString
import Atoman.Shell.Handlers
import Atoman.Shell.Text
import Mathlib.Data.List.DropRight
import Mathlib.Data.List.Find
import Mathlib.Data.UInt
import Mathlib.Logic.Function.Basic

/-!
# The lines of the text shell

The bytes of a link come together in the buffer of its context. A line break makes a string of
them, which names an item, with a payload behind a colon or without.
-/

namespace Atoman.Shell
open Lib (Memory)

/-- `sizeof(ctx->shell_buffer)` -/
def bufferSize : ℕ := 128

/-- `shell_ctx_t` -/
structure ShellCtx where
  shell_buffer : Memory UInt8
  shell_index : ℕ
  shell_index_lt : shell_index < bufferSize

/-- What goes to the output: the value of an item, or the entry of an item in the list of `help`. -/
inductive Print
  | item (p_name : List UInt8) (type : ShellType) (value : List UInt8)
  | entry (p_name : List UInt8) (command : Bool)

/-- The shell, the output that an item keeps, by its place, and what was printed. -/
structure Console where
  shell : Shell
  item_printf : ℕ → Option ℕ
  printed : List Print

namespace Console

def withMemory (s : Console) (memory : Memory UInt8) : Console :=
  { s with shell := { s.shell with memory := memory } }

/-- `p->status = status_set; p->my_printf = my_printf;`, unless the status is negative -/
def setStatus (s : Console) (i : ℕ) (status_set : ℤ) (my_printf : ℕ) : Console :=
  if 0 ≤ status_set then
    { s with
      shell :=
        { s.shell with status := Function.update s.shell.status i (UInt32.ofNat status_set.toNat) }
      item_printf := Function.update s.item_printf i (some my_printf) }
  else s

/-- `shell_core_item_print` -/
def print (s : Console) (p : Item) : Console :=
  let value := s.shell.memory.slice p.p_var p.type.size
  { s with printed := s.printed ++ [.item p.p_name p.type value] }

/-- The built-in command `help` -/
def help (s : Console) (items : List Item) : Console :=
  { s with printed := s.printed ++ items.map fun p => .entry p.p_name (p.type = .cmd) }

end Console

/-! ## The payload -/

/-- `isspace` on a byte -/
def isspace (b : UInt8) : Bool := isSpace (Char.ofUInt8 b)

/-- `ltrim` and `rtrim_inplace` -/
def trim (s : List Char) : List Char := (s.dropWhile isSpace).rdropWhile isSpace

/-- `(*v) ? v : NULL` for the trimmed text -/
def valueStr (s : List Char) : Option (List Char) := if trim s = [] then none else some (trim s)

/-- The loop over `strstr(…, "-s")`: the first one at the start or behind a space, with what is in
front of it and what is behind it. -/
def findOption (free : Bool) : List Char → Option (List Char × List Char)
  | [] => none
  | '-' :: 's' :: rest =>
    if free = true then some ([], rest)
    else (findOption false rest).map fun r => ('-' :: 's' :: r.1, r.2)
  | c :: rest => (findOption (isSpace c) rest).map fun r => (c :: r.1, r.2)

section
variable {F : Type} (T : Target F)

/-- `parse_param_value_and_status`. Without digits `strtol` is 0, which is what the source takes
then. -/
def parseParamValueAndStatus (param : List Char) : Option (List Char) × ℤ :=
  let p := param.dropWhile isSpace
  match findOption true p with
  | some (front, behind) =>
    let ps := behind.dropWhile isSpace
    (valueStr front, if ps = [] then 0 else (strtol T ps 10).bmod (2 ^ 32))
  | none => (valueStr p, -1)

/-- `shell_handle_param`, for the text behind the colon where there is one. The evaluation of a
value text has enough fuel for every text in the buffer; there is no result where it hangs. -/
def handleParam (p : Item) (i : ℕ) (param : Option (List UInt8)) (my_printf : ℕ) (s : Console) :
    Option Console :=
  let parsed := (param.map (·.map Char.ofUInt8)).elim (none, -1) (parseParamValueAndStatus T)
  if p.type = .cmd then
    some ((s.withMemory (p.call s.shell.memory)).setStatus i parsed.2 my_printf)
  else
    match parsed.1 with
    | none => some ((s.print p).setStatus i parsed.2 my_printf)
    | some value_str =>
      (writeItemIfNeeded T bufferSize p value_str s.shell.memory).map fun memory =>
        ((s.withMemory memory).print p).setStatus i parsed.2 my_printf

/-! ## The buffer -/

namespace ShellCtx

/-- The context at the start -/
def zero : ShellCtx := ⟨fun _ => 0, 0, by decide⟩

/-- The index behind the check for overflow -/
def next (ctx : ShellCtx) : ℕ := if bufferSize - 1 ≤ ctx.shell_index then 0 else ctx.shell_index

theorem next_lt (ctx : ShellCtx) : ctx.next < bufferSize - 1 := by
  unfold next
  split
  · decide
  · omega

/-- A byte is stored. -/
def push (ctx : ShellCtx) (data : UInt8) : ShellCtx where
  shell_buffer := ctx.shell_buffer.write ctx.next [data]
  shell_index := ctx.next + 1
  shell_index_lt := by
    have hnext := ctx.next_lt
    omega

/-- `end`: the place of the terminator, in front of `\n` or `\r\n` -/
def lineEnd (ctx : ShellCtx) : ℕ :=
  if 2 ≤ ctx.shell_index ∧ ctx.shell_buffer (ctx.shell_index - 2) = '\r'.toUInt8 then
    ctx.shell_index - 2
  else ctx.shell_index - 1

end ShellCtx

/-- The walk over the list. The names have no zero byte, so `strncmp` compares all of a name. -/
def matchItem (items : List Item) (buffer : Memory UInt8) (line : ℕ) : Option (Item × ℕ) :=
  items.zipIdx.find? fun p =>
    (buffer.string line bufferSize).take p.1.p_name.length = p.1.p_name ∧
      (buffer (line + p.1.p_name.length) = ':'.toUInt8 ∨ buffer (line + p.1.p_name.length) = 0)

/-- `"help"` -/
def helpText : List UInt8 := "help".toList.map Char.toUInt8

/-- `shell_core_run` behind the trimming, up to `shell_done` -/
def runText (items : List Item) (my_printf : ℕ) (buffer : Memory UInt8) (line : ℕ) (s : Console) :
    Option Console :=
  if buffer line = 0 then some s
  else if buffer.string line bufferSize = helpText then some (s.help items)
  else
    match matchItem items buffer line with
    | none => some s
    | some (p, i) =>
      let param :=
        if buffer (line + p.p_name.length) = ':'.toUInt8 then
          some (buffer.string (line + p.p_name.length + 1) bufferSize)
        else none
      handleParam T p i param my_printf s

/-- `shell_core_run`, with an output and a context. What the parameter parser writes to the
buffer is not kept: nothing reads it. -/
def shellCoreRun (items : List Item) (my_printf : ℕ) (data : UInt8) (c : ShellCtx × Console) :
    Option (ShellCtx × Console) :=
  let ctx := c.1.push data
  if data ≠ '\n'.toUInt8 then some (ctx, c.2)
  else
    let buffer := ctx.shell_buffer.write ctx.lineEnd [0]
    let line := Memory.skip isspace buffer bufferSize 0
    let buffer := Memory.cutBack isspace line (buffer.string line bufferSize).length buffer
    (runText T items my_printf buffer line c.2).map fun s => (⟨buffer.write 0 [0], 0, by decide⟩, s)

/-- The bytes of a stream, one after the other. -/
def shellRun (items : List Item) (my_printf : ℕ) (stream : List UInt8) (c : ShellCtx × Console) :
    Option (ShellCtx × Console) :=
  stream.foldlM (fun c data => shellCoreRun T items my_printf data c) c

/-- What one line does, on a context of its own. -/
def runLine (items : List Item) (my_printf : ℕ) (line : List UInt8) (s : Console) :
    Option Console :=
  (shellRun T items my_printf (line ++ ['\n'.toUInt8]) (.zero, s)).map Prod.snd

end

/-! ## What a line says -/

/-- The text of a line: up to the first zero byte, without the white space around it. -/
def textOf (line : List UInt8) : List UInt8 :=
  ((line.takeWhile (· ≠ 0)).dropWhile isspace).rdropWhile isspace

/-- The text is the name, or the name with a colon and a payload behind it. -/
def Names (text name : List UInt8) : Prop := text = name ∨ name ++ [':'.toUInt8] <+: text

instance (text name : List UInt8) : Decidable (Names text name) :=
  inferInstanceAs (Decidable (_ ∨ _))

/-- The first item of the list that the text names, with its place. -/
def addressed (items : List Item) (text : List UInt8) : Option (Item × ℕ) :=
  items.zipIdx.find? fun p => Names text p.1.p_name

/-- The payload behind the name and the colon. -/
def payloadOf (text name : List UInt8) : Option (List UInt8) :=
  if text = name then none else some (text.drop (name.length + 1))

/-- What a text asks for: the built-in list, or one call for the first item that it names. -/
def dispatch {F : Type} (T : Target F) (items : List Item) (my_printf : ℕ) (text : List UInt8)
    (s : Console) : Option Console :=
  if text = [] then some s
  else if text = helpText then some (s.help items)
  else
    match addressed items text with
    | none => some s
    | some (p, i) => handleParam T p i (payloadOf text p.p_name) my_printf s

theorem names_of_addressed {items : List Item} {text : List UInt8} {found : Item × ℕ}
    (h : addressed items text = some found) : Names text found.1.p_name := by
  unfold addressed at h
  simpa using List.find?_some h

section
variable {buffer : Memory UInt8} {line : ℕ} {text : List UInt8}

theorem read_eq_zero_iff (h : buffer.HasString line text) : buffer line = 0 ↔ text = [] := by
  cases text with
  | nil => exact ⟨fun _ => rfl, fun _ => h.terminated⟩
  | cons x text =>
    rw [h.head]
    exact ⟨fun hx => absurd hx (h.ne_zero x List.mem_cons_self), nofun⟩

/-- The byte behind a name that the text starts with. -/
theorem read_behind_name {name rest : List UInt8} (h : buffer.HasString line (name ++ rest)) :
    buffer (line + name.length) = rest.headD 0 := by
  have hrest := h.drop
  cases rest with
  | nil => exact hrest.terminated
  | cons x rest => exact hrest.head

/-- `strncmp` and the byte behind the name find the names of a text. -/
theorem match_iff_names (h : buffer.HasString line text) (name : List UInt8) :
    (text.take name.length = name ∧
      (buffer (line + name.length) = ':'.toUInt8 ∨ buffer (line + name.length) = 0)) ↔
        Names text name := by
  constructor
  · rintro ⟨htake, hbyte⟩
    obtain ⟨rest, rfl⟩ : ∃ rest, text = name ++ rest := by
      have hsplit := List.take_append_drop name.length text
      rw [htake] at hsplit
      exact ⟨_, hsplit.symm⟩
    rw [read_behind_name h] at hbyte
    cases rest with
    | nil => exact Or.inl (List.append_nil name)
    | cons x rest =>
      rcases hbyte with hcolon | hzero
      · refine Or.inr ⟨rest, ?_⟩
        rw [← hcolon]
        exact List.append_assoc name [x] rest
      · exact absurd hzero (h.ne_zero x (by simp))
  · rintro (rfl | ⟨rest, rfl⟩)
    · refine ⟨List.take_length, Or.inr ?_⟩
      exact h.terminated
    · rw [List.append_assoc] at h ⊢
      refine ⟨List.take_left, Or.inl ?_⟩
      exact read_behind_name h

/-- The string behind the colon is the payload. -/
theorem param_eq_payload (h : buffer.HasString line text) (hroom : text.length < bufferSize)
    {name : List UInt8} (hnames : Names text name) :
    (if buffer (line + name.length) = ':'.toUInt8 then
      some (buffer.string (line + name.length + 1) bufferSize) else none) =
        payloadOf text name := by
  rcases hnames with rfl | ⟨rest, rfl⟩
  · have hzero : buffer (line + text.length) = 0 := h.terminated
    rw [hzero, if_neg (by decide)]
    exact (if_pos rfl).symm
  · rw [List.append_assoc] at h ⊢
    have hcolon : buffer (line + name.length) = ':'.toUInt8 := read_behind_name h
    have hrest : buffer.HasString (line + name.length + 1) rest := h.drop.tail
    have hlen : rest.length < bufferSize := by
      rw [List.length_append, List.length_append] at hroom
      omega
    have hne : name ++ ([':'.toUInt8] ++ rest) ≠ name := by simp
    have hdrop : (name ++ ([':'.toUInt8] ++ rest)).drop (name.length + 1) = rest := by
      rw [← List.append_assoc]
      exact List.drop_left' (by simp)
    unfold payloadOf
    rw [if_pos hcolon, hrest.string_eq hlen, if_neg hne, hdrop]

/-- **The trimmed string decides.** Nothing else of the buffer matters. -/
theorem runText_eq {F : Type} (T : Target F) (items : List Item) (my_printf : ℕ) (s : Console)
    (h : buffer.HasString line text) (hroom : text.length < bufferSize) :
    runText T items my_printf buffer line s = dispatch T items my_printf text s := by
  have hmatch : matchItem items buffer line = addressed items text := by
    unfold matchItem addressed
    simp only [h.string_eq hroom, match_iff_names h]
  unfold runText dispatch
  rw [hmatch, h.string_eq hroom, if_congr (read_eq_zero_iff h) rfl rfl]
  split
  · rfl
  split
  · rfl
  cases hfound : addressed items text with
  | none => rfl
  | some found =>
    have hnames : Names text found.1.p_name := names_of_addressed hfound
    dsimp only
    rw [param_eq_payload h hroom hnames]

end

/-! ## What the buffer holds -/

/-- White space at the end of a line plays no part. -/
theorem textOf_concat {line : List UInt8} {b : UInt8} (hb : isspace b = true) :
    textOf (line ++ [b]) = textOf line := by
  have hne : b ≠ 0 := by
    rintro rfl
    exact absurd hb (by decide)
  unfold textOf
  rw [List.takeWhile_append]
  split
  · next hall =>
    have hline : line.takeWhile (· ≠ 0) = line := (List.takeWhile_prefix _).eq_of_length hall
    have hsingle : [b].takeWhile (· ≠ 0) = [b] := List.takeWhile_cons_of_pos (decide_eq_true hne)
    rw [hline, hsingle, List.dropWhile_append]
    split
    · next hempty =>
      rw [List.isEmpty_iff.mp hempty, List.dropWhile_cons_of_pos hb]
      rfl
    · exact List.rdropWhile_concat_pos _ _ _ hb
  · rfl

theorem length_textOf_le (line : List UInt8) : (textOf line).length ≤ line.length := by
  have htake := (List.takeWhile_prefix (l := line) (· ≠ 0)).length_le
  have hdrop := (List.dropWhile_suffix (l := line.takeWhile (· ≠ 0)) isspace).length_le
  have hback :=
    (List.rdropWhile_prefix isspace ((line.takeWhile (· ≠ 0)).dropWhile isspace)).length_le
  unfold textOf
  omega

/-- The bytes that stay when one more comes: none after an overflow. -/
def kept (held : List UInt8) : List UInt8 := if bufferSize - 1 ≤ held.length then [] else held

theorem length_kept_lt (held : List UInt8) : (kept held).length < bufferSize - 1 := by
  unfold kept
  split
  · decide
  · omega

/-- The bytes in front of the index. -/
structure ShellCtx.Holds (ctx : ShellCtx) (held : List UInt8) : Prop where
  length_eq : held.length = ctx.shell_index
  slice_eq : ctx.shell_buffer.slice 0 held.length = held

namespace ShellCtx
variable {ctx : ShellCtx} {held : List UInt8}

theorem holds_zero : zero.Holds [] := ⟨rfl, rfl⟩

theorem Holds.push (h : ctx.Holds held) (data : UInt8) :
    (ctx.push data).Holds (kept held ++ [data]) := by
  have hnext : ctx.next = (kept held).length := by
    unfold next kept
    rw [h.length_eq]
    split
    · rfl
    · exact h.length_eq.symm
  have hslice : ctx.shell_buffer.slice 0 (kept held).length = kept held := by
    unfold kept
    split
    · rfl
    · exact h.slice_eq
  have hextend := Memory.slice_write_extend [data] hslice
  rw [Nat.zero_add] at hextend
  refine ⟨?_, ?_⟩
  · rw [List.length_append, ← hnext]
    rfl
  · rw [List.length_append]
    show (ctx.shell_buffer.write ctx.next [data]).slice 0 _ = _
    rw [hnext]
    exact hextend

/-- The bytes in front of the line break have the text, with a `\r` or without. -/
theorem Holds.lineEnd (h : ctx.Holds (held ++ ['\n'.toUInt8])) :
    ∃ bs, ctx.lineEnd = bs.length ∧ ctx.shell_buffer.slice 0 bs.length = bs ∧
      bs.length ≤ held.length ∧ textOf bs = textOf held := by
  have hindex : ctx.shell_index = held.length + 1 := by
    rw [← h.length_eq, List.length_append]
    rfl
  have hslice : ctx.shell_buffer.slice 0 held.length = held := by
    have hprefix := Memory.slice_prefix h.slice_eq (n := held.length) (by simp)
    rwa [List.take_left] at hprefix
  unfold ShellCtx.lineEnd
  rw [hindex]
  rcases List.eq_nil_or_concat' held with rfl | ⟨line, x, rfl⟩
  · exact ⟨[], by simp, rfl, le_rfl, rfl⟩
  have hlen : (line ++ [x]).length = line.length + 1 := List.length_append
  have hread : ctx.shell_buffer line.length = x := by
    have hcell := Memory.slice_inside hslice (a := line.length) (n := 1) (by omega)
    rw [List.drop_left] at hcell
    simpa [Memory.slice] using hcell
  by_cases hcr : x = '\r'.toUInt8
  · refine ⟨line, ?_, ?_, ?_, ?_⟩
    · rw [if_pos]
      · omega
      · exact ⟨by omega, by rw [hlen]; exact hread.trans hcr⟩
    · have hfront := Memory.slice_prefix hslice (n := line.length) (by omega)
      rwa [List.take_left] at hfront
    · omega
    · rw [hcr]
      exact (textOf_concat (by decide)).symm
  · refine ⟨line ++ [x], ?_, hslice, le_rfl, rfl⟩
    rw [if_neg]
    · omega
    · rintro ⟨-, hbyte⟩
      rw [hlen] at hbyte
      exact hcr (hread.symm.trans hbyte)

end ShellCtx

/-! ## Streams -/

/-- The bytes of a line that the buffer has at its end. -/
def tailOf (line : List UInt8) : List UInt8 :=
  kept (line.foldl (fun held data => kept held ++ [data]) [])

/-- A line that fits is kept. -/
theorem tailOf_eq {line : List UInt8} (h : line.length < bufferSize - 1) : tailOf line = line := by
  have hheld (held : List UInt8) (hlen : (held ++ line).length < bufferSize) :
      line.foldl (fun held data => kept held ++ [data]) held = held ++ line := by
    clear h
    induction line generalizing held with
    | nil => exact (List.append_nil held).symm
    | cons data line ih =>
      have hkept : kept held = held := by
        rw [List.length_append, List.length_cons] at hlen
        exact if_neg (by omega)
      rw [List.append_cons] at hlen ⊢
      rw [List.foldl_cons, hkept, ih _ hlen]
  unfold tailOf
  rw [hheld [] (by rw [List.nil_append]; omega), List.nil_append]
  exact if_neg (by omega)

/-- The lines of a stream that end with a line break. -/
def completeLines (stream : List UInt8) : List (List UInt8) :=
  (stream.splitOn '\n'.toUInt8).dropLast

theorem completeLines_append {line : List UInt8} (h : '\n'.toUInt8 ∉ line) (rest : List UInt8) :
    completeLines (line ++ '\n'.toUInt8 :: rest) = line :: completeLines rest := by
  unfold completeLines
  rw [List.splitOn_append_cons_self_of_not_mem h]
  exact List.dropLast_cons_of_ne_nil (List.splitOn_ne_nil _ _)

theorem completeLines_eq_nil {rest : List UInt8} (h : '\n'.toUInt8 ∉ rest) :
    completeLines rest = [] := by
  unfold completeLines
  rw [List.splitOn_eq_singleton h]
  rfl

/-- A stream has a first complete line, or no line break. -/
theorem stream_induction {P : List UInt8 → Prop} (hrest : ∀ rest, '\n'.toUInt8 ∉ rest → P rest)
    (hline : ∀ line rest, '\n'.toUInt8 ∉ line → P rest → P (line ++ '\n'.toUInt8 :: rest))
    (stream : List UInt8) : P stream := by
  induction hlen : stream.length using Nat.strong_induction_on generalizing stream with
  | _ n ih =>
    by_cases hmem : '\n'.toUInt8 ∈ stream
    · obtain ⟨line, rest, rfl, hfirst⟩ := List.eq_append_cons_of_mem hmem
      have hshort : rest.length < n := by
        rw [← hlen, List.length_append, List.length_cons]
        omega
      exact hline line rest hfirst (ih rest.length hshort rest rfl)
    · exact hrest stream hmem

theorem not_mem_of_completeLines {stream line : List UInt8} (h : line ∈ completeLines stream) :
    '\n'.toUInt8 ∉ line := by
  induction stream using stream_induction with
  | hrest rest hnone =>
    rw [completeLines_eq_nil hnone] at h
    exact nomatch h
  | hline first rest hfirst ih =>
    rw [completeLines_append hfirst] at h
    rcases List.mem_cons.mp h with rfl | hmem
    · exact hfirst
    · exact ih hmem

section
variable {F : Type} (T : Target F) (items : List Item) (my_printf : ℕ) {ctx : ShellCtx}
  {held line : List UInt8}

/-- A byte of a line is stored, and nothing else. -/
theorem shellRun_line (h : ctx.Holds held) (hline : '\n'.toUInt8 ∉ line) (s : Console) :
    ∃ ctx' : ShellCtx, ctx'.Holds (line.foldl (fun held data => kept held ++ [data]) held) ∧
      shellRun T items my_printf line (ctx, s) = some (ctx', s) := by
  induction line generalizing ctx held with
  | nil => exact ⟨ctx, h, rfl⟩
  | cons data line ih =>
    have hdata : data ≠ '\n'.toUInt8 := fun heq => hline (heq ▸ List.mem_cons_self)
    have hstep : shellCoreRun T items my_printf data (ctx, s) = some (ctx.push data, s) := by
      unfold shellCoreRun
      exact if_pos hdata
    have hrest : '\n'.toUInt8 ∉ line := fun hmem => hline (List.mem_cons_of_mem data hmem)
    obtain ⟨ctx', hctx', hrun⟩ := ih (h.push data) hrest
    refine ⟨ctx', hctx', ?_⟩
    unfold shellRun at hrun ⊢
    rw [List.foldlM_cons, hstep]
    exact hrun

/-- A line break hands the text over and leaves an empty buffer. -/
theorem shellCoreRun_break (h : ctx.Holds held) (s : Console) :
    ∃ ctx' : ShellCtx, ctx'.Holds [] ∧
      shellCoreRun T items my_printf '\n'.toUInt8 (ctx, s) =
        (dispatch T items my_printf (textOf (kept held)) s).map fun s => (ctx', s) := by
  have hpush := h.push '\n'.toUInt8
  obtain ⟨bs, hend, hslice, hlen, htext⟩ := hpush.lineEnd
  have hkept := length_kept_lt held
  have hzero : ((ctx.push '\n'.toUInt8).shell_buffer.write bs.length [0]).HasString 0
      (bs.takeWhile (· ≠ 0)) := by
    refine Memory.hasString_takeWhile ?_
    have hextend := Memory.slice_write_extend [0] hslice
    rwa [Nat.zero_add] at hextend
  have htake := (List.takeWhile_prefix (l := bs) (· ≠ 0)).length_le
  have hroom : (bs.takeWhile (· ≠ 0)).length < bufferSize := by omega
  have hfront := hzero.skip (p := isspace) hroom
  have hdrop := (List.dropWhile_suffix (l := bs.takeWhile (· ≠ 0)) isspace).length_le
  have hcut := hfront.cutBack (p := isspace)
  have hrun := runText_eq T items my_printf s hcut
    (Nat.lt_of_le_of_lt (length_textOf_le bs) (by omega))
  unfold shellCoreRun
  rw [if_neg (not_not_intro rfl)]
  dsimp only
  rw [hend, hfront.string_eq (Nat.lt_of_le_of_lt hdrop hroom), hrun, ← htext]
  exact ⟨_, ⟨rfl, rfl⟩, rfl⟩

theorem shellRun_complete (h : ctx.Holds []) (hline : '\n'.toUInt8 ∉ line) (s : Console) :
    ∃ ctx' : ShellCtx, ctx'.Holds [] ∧
      shellRun T items my_printf (line ++ ['\n'.toUInt8]) (ctx, s) =
        (dispatch T items my_printf (textOf (tailOf line)) s).map fun s => (ctx', s) := by
  obtain ⟨ctx', hctx', hrun⟩ := shellRun_line T items my_printf h hline s
  obtain ⟨ctx'', hctx'', hbreak⟩ := shellCoreRun_break T items my_printf hctx' s
  refine ⟨ctx'', hctx'', ?_⟩
  unfold shellRun at hrun ⊢
  rw [List.foldlM_append, hrun]
  exact (bind_pure _).trans hbreak

theorem runLine_eq (hline : '\n'.toUInt8 ∉ line) (s : Console) :
    runLine T items my_printf line s = dispatch T items my_printf (textOf (tailOf line)) s := by
  obtain ⟨ctx', -, hrun⟩ := shellRun_complete T items my_printf ShellCtx.holds_zero hline s
  unfold runLine
  rw [hrun, Option.map_map]
  exact Option.map_id'

/-- **A stream is its lines**, each by itself. What is behind the last line break does nothing. -/
theorem shellRun_eq (stream : List UInt8) (h : ctx.Holds []) (s : Console) :
    (shellRun T items my_printf stream (ctx, s)).map Prod.snd =
      (completeLines stream).foldlM (fun s line => runLine T items my_printf line s) s := by
  induction stream using stream_induction generalizing ctx s with
  | hrest rest hnone =>
    obtain ⟨ctx', -, hrun⟩ := shellRun_line T items my_printf h hnone s
    rw [completeLines_eq_nil hnone, hrun]
    rfl
  | hline line rest hline ih =>
    obtain ⟨ctx', hctx', hrun⟩ := shellRun_complete T items my_printf h hline s
    rw [completeLines_append hline, List.foldlM_cons, runLine_eq T items my_printf hline s]
    unfold shellRun at hrun ih ⊢
    rw [List.append_cons, List.foldlM_append, hrun]
    cases dispatch T items my_printf (textOf (tailOf line)) s with
    | none => rfl
    | some s' => exact ih hctx' s'

end

/-! ## Texts that never end -/

theorem findOption_length {free : Bool} {s front behind : List Char}
    (h : findOption free s = some (front, behind)) : front.length ≤ s.length := by
  fun_induction findOption free s generalizing front behind with
  | case1 free => exact nomatch h
  | case2 rest =>
    obtain ⟨rfl, -⟩ := Prod.mk.inj (Option.some.inj h)
    exact Nat.zero_le _
  | case3 free rest hfree ih =>
    obtain ⟨r, hr, heq⟩ := Option.map_eq_some_iff.mp h
    obtain ⟨rfl, -⟩ := Prod.mk.inj heq
    have hlen := ih hr
    simp only [List.length_cons]
    omega
  | case4 free c rest hne ih =>
    obtain ⟨r, hr, heq⟩ := Option.map_eq_some_iff.mp h
    obtain ⟨rfl, -⟩ := Prod.mk.inj heq
    have hlen := ih hr
    simp only [List.length_cons]
    omega

theorem valueStr_length {s v : List Char} (h : valueStr s = some v) : v.length ≤ s.length := by
  unfold valueStr at h
  split at h
  · exact nomatch h
  obtain rfl := Option.some.inj h
  have hdrop := (List.dropWhile_suffix (l := s) isSpace).length_le
  have hback := (List.rdropWhile_prefix isSpace (s.dropWhile isSpace)).length_le
  unfold trim
  omega

section
variable {F : Type} (T : Target F) (items : List Item) (my_printf : ℕ) {text : List UInt8}

/-- The value text is a part of the payload. -/
theorem valueStr_length_of_parse {param v : List Char}
    (h : (parseParamValueAndStatus T param).1 = some v) : v.length ≤ param.length := by
  have hdrop := (List.dropWhile_suffix (l := param) isSpace).length_le
  unfold parseParamValueAndStatus at h
  dsimp only at h
  split at h
  · next front behind hoption =>
    have hvalue := valueStr_length h
    have hfront := findOption_length hoption
    omega
  · have hvalue := valueStr_length h
    omega

/-- The payload writes a number whose evaluation does not return: a dot of it stands alone. -/
def HangsOn (p : Item) (param : Option (List UInt8)) : Prop :=
  p.type ≠ .cmd ∧ ∃ payload value_str, param = some payload ∧
    (parseParamValueAndStatus T (payload.map Char.ofUInt8)).1 = some value_str ∧
    isStringNumber value_str = true ∧ Lib.Numeral.loneDot false value_str = true

/-- The item that the text names is written such a number. -/
def Hangs (text : List UInt8) : Prop :=
  text ≠ [] ∧ text ≠ helpText ∧ ∃ p i, addressed items text = some (p, i) ∧
    HangsOn T p (payloadOf text p.p_name)

/-- With room for the text in the buffer, a write finishes unless a dot stands alone. -/
theorem writeItemIfNeeded_isSome {p : Item} {value_str : List Char} (m : Memory UInt8)
    (hlen : value_str.length + 2 ≤ bufferSize) (hcmd : p.type ≠ .cmd) :
    (writeItemIfNeeded T bufferSize p value_str m).isSome = true ↔
      ¬ (isStringNumber value_str = true ∧ Lib.Numeral.loneDot false value_str = true) := by
  unfold writeItemIfNeeded
  rw [Option.isSome_map, storeText_isSome, not_and, Bool.not_eq_true]
  constructor
  · intro hreturns hnumber
    exact (evalExpr_returns_iff T.toArithmetic (accepted_of_isStringNumber hnumber)).mp
      ⟨bufferSize, hreturns hcmd hnumber⟩
  · intro hlone _ hnumber
    exact evalExprInner_returns (accepted_of_isStringNumber hnumber) (hlone hnumber) hlen _ _

theorem payloadOf_length {name payload : List UInt8} (h : payloadOf text name = some payload) :
    payload.length ≤ text.length := by
  unfold payloadOf at h
  split at h
  · exact nomatch h
  obtain rfl := Option.some.inj h
  rw [List.length_drop]
  omega

theorem handleParam_isSome (p : Item) (i : ℕ) {param : Option (List UInt8)} (s : Console)
    (hlen : ∀ payload ∈ param, payload.length + 2 ≤ bufferSize) :
    (handleParam T p i param my_printf s).isSome = true ↔ ¬ HangsOn T p param := by
  dsimp only [handleParam]
  split
  · next hcmd => exact iff_of_true rfl fun hhangs => hhangs.1 hcmd
  next hcmd =>
  cases param with
  | none =>
    refine iff_of_true rfl ?_
    rintro ⟨-, payload, value_str, hsome, -⟩
    exact nomatch hsome
  | some payload =>
    dsimp only [Option.map_some, Option.elim_some]
    cases hvalue : (parseParamValueAndStatus T (payload.map Char.ofUInt8)).1 with
    | none =>
      refine iff_of_true rfl ?_
      rintro ⟨-, payload', value_str, hsome, hparse, -⟩
      obtain rfl := Option.some.inj hsome
      rw [hvalue] at hparse
      exact nomatch hparse
    | some value_str =>
      have hroom : value_str.length + 2 ≤ bufferSize := by
        have hpayload := hlen payload rfl
        have hpart := valueStr_length_of_parse T hvalue
        rw [List.length_map] at hpart
        omega
      dsimp only
      rw [Option.isSome_map, writeItemIfNeeded_isSome T _ hroom hcmd, not_iff_not]
      constructor
      · intro hnumber
        exact ⟨hcmd, payload, value_str, rfl, hvalue, hnumber⟩
      · rintro ⟨-, payload', value_str', hsome, hparse, hnumber⟩
        obtain rfl := Option.some.inj hsome
        rw [hvalue] at hparse
        obtain rfl := Option.some.inj hparse
        exact hnumber

/-- **A text is handled to the end** exactly if it does not hang. -/
theorem dispatch_isSome (hlen : text.length + 2 ≤ bufferSize) (s : Console) :
    (dispatch T items my_printf text s).isSome = true ↔ ¬ Hangs T items text := by
  unfold dispatch
  split
  · next hnil => exact iff_of_true rfl fun hhangs => hhangs.1 hnil
  next hnil =>
  split
  · next hhelp => exact iff_of_true rfl fun hhangs => hhangs.2.1 hhelp
  next hhelp =>
  cases hfound : addressed items text with
  | none =>
    refine iff_of_true rfl ?_
    rintro ⟨-, -, p, i, hsome, -⟩
    rw [hfound] at hsome
    exact nomatch hsome
  | some found =>
    obtain ⟨p, i⟩ := found
    have hpayload (payload : List UInt8) (h : payload ∈ payloadOf text p.p_name) :
        payload.length + 2 ≤ bufferSize := by
      have hpart := payloadOf_length h
      omega
    dsimp only
    rw [handleParam_isSome T my_printf p i s hpayload, not_iff_not]
    constructor
    · intro hhangs
      exact ⟨hnil, hhelp, p, i, hfound, hhangs⟩
    · rintro ⟨-, -, p', i', hsome, hhangs⟩
      rw [hfound] at hsome
      obtain ⟨rfl, rfl⟩ := Prod.mk.inj (Option.some.inj hsome)
      exact hhangs

end

/-! ## Dispatch -/

/-- **Every line that fits is dispatched, once and by itself.** A stream does what its complete
lines do, one after the other and each on an empty buffer. A line of at most 126 bytes in front
of its line break makes one call for the first item that its text names, with the payload behind
the colon; `help` prints the list, and every other text does nothing. The call returns unless
the evaluation of the payload hangs. -/
theorem lines_dispatched {F : Type} (T : Target F) (items : List Item) (my_printf : ℕ)
    (stream : List UInt8) (s : Console) :
    ((shellRun T items my_printf stream (.zero, s)).map Prod.snd =
      (completeLines stream).foldlM (fun s line => runLine T items my_printf line s) s) ∧
    ∀ line ∈ completeLines stream, line.length < bufferSize - 1 → ∀ s,
      runLine T items my_printf line s = dispatch T items my_printf (textOf line) s ∧
      ((runLine T items my_printf line s).isSome = true ↔ ¬ Hangs T items (textOf line)) := by
  refine ⟨shellRun_eq T items my_printf stream ShellCtx.holds_zero s, fun line hline hlen s => ?_⟩
  have hrun := runLine_eq T items my_printf (not_mem_of_completeLines hline) s
  rw [tailOf_eq hlen] at hrun
  refine ⟨hrun, ?_⟩
  have htext := length_textOf_le line
  rw [hrun]
  exact dispatch_isSome T items my_printf (by omega) s

/-- A command that writes 1 to the first cell. -/
def command (p_name : List UInt8) (h : p_name.length ≤ strSizeMax) : Item where
  p_name := p_name
  p_var := 0
  type := .cmd
  p_max := 0
  p_min := 0
  func := some fun m => m.write 0 [1]
  p_name_size_le := h

/-- A shell with nothing set -/
def Console.zero : Console where
  shell := ⟨fun _ => 0, fun _ => 0, 0, 0, none, 0, 0, 0, 0, 0⟩
  item_printf := fun _ => none
  printed := []

/-- The letters `RUN` -/
def runName : List UInt8 := "RUN".toList.map Char.toUInt8

theorem lines_dispatched_demo :
    runLine singleTarget [command runName (by decide)] 0
        (' '.toUInt8 :: runName ++ ['\r'.toUInt8]) .zero =
      dispatch singleTarget [command runName (by decide)] 0 runName .zero :=
  ((lines_dispatched singleTarget [command runName (by decide)] 0
    (' '.toUInt8 :: runName ++ ['\r'.toUInt8, '\n'.toUInt8]) .zero).2 _ (by decide) (by decide) _).1

/-- A line of at most the length of the buffer, with its line break, taken whole. -/
def dispatchWhole {F : Type} (T : Target F) (items : List Item) (my_printf : ℕ) (line : List UInt8)
    (s : Console) : Option Console :=
  if line.length < bufferSize then
    let text := (line.dropWhile isspace).rdropWhile isspace
    match addressed items text with
    | none => some s
    | some (p, i) => handleParam T p i (payloadOf text p.p_name) my_printf s
  else some s

/-- What a line leaves in the first cell. -/
def firstCell (s : Option Console) : Option UInt8 := s.map fun s => s.shell.memory 0

/-- Three lines are not taken whole: a registered command `help` is hidden by the built-in one,
`RUN` is executed behind 127 other bytes of its line, and in front of a zero byte. -/
theorem not_dispatchWhole :
    firstCell (runLine singleTarget [command helpText (by decide)] 0
      helpText .zero) = some 0 ∧
    firstCell (dispatchWhole singleTarget [command helpText (by decide)] 0
      helpText .zero) = some 1 ∧
    firstCell (runLine singleTarget [command runName (by decide)] 0
      (List.replicate 127 'x'.toUInt8 ++ runName) .zero) = some 1 ∧
    firstCell (dispatchWhole singleTarget [command runName (by decide)] 0
      (List.replicate 127 'x'.toUInt8 ++ runName) .zero) = some 0 ∧
    firstCell (runLine singleTarget [command runName (by decide)] 0
      (runName ++ [0, 'x'.toUInt8]) .zero) = some 1 ∧
    firstCell (dispatchWhole singleTarget [command runName (by decide)] 0
      (runName ++ [0, 'x'.toUInt8]) .zero) = some 0 := by
  have hlong : '\n'.toUInt8 ∉ List.replicate 127 'x'.toUInt8 ++ runName := by
    rw [List.mem_append, List.mem_replicate]
    decide
  rw [runLine_eq _ _ _ (by decide), runLine_eq _ _ _ hlong, runLine_eq _ _ _ (by decide)]
  refine ⟨by decide, by decide, ?_, ?_, by decide, by decide⟩
  · have htail : tailOf (List.replicate 127 'x'.toUInt8 ++ runName) = runName := by decide +kernel
    rw [htail]
    decide
  · decide +kernel

end Atoman.Shell
