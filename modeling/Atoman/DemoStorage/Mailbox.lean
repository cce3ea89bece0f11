import Atoman.DemoStorage.Pool

/-!
# The mailbox keeps the protocol

The calls of both parties in any order, each behind the lock. The history lists the calls
that succeeded, with what they accepted, took and finished.
-/

namespace Atoman.DemoStorage
open Lib (TryLock)

/-- The pool, and what has happened to the slot. -/
structure Mailbox (D : Type) where
  pool : Pool D
  history : List Done

section
variable {D : Type}

/-- What a call that succeeded has done: a request as its caller has given it, and as the
service gets it. -/
def Checked.effect (call : Checked D) (before after : Pool D) (reply : Reply D) : List Done :=
  match call with
  | .request device command =>
    [.accepted ⟨before.pool.params, command, after.pool.requestId, device⟩]
  | .take => reply.request.toList.map .taken
  | .finish id _ restored _ => [.finished id restored]
  | .bootBegin _ => [.booted]
  | .configure _ | .read | .probe _ => []

/-- A call inside. -/
def Mailbox.call (call : Checked D) (s : Mailbox D) : Mailbox D where
  pool := (call.run s.pool).1
  history :=
    if (call.run s.pool).2.accepted = true then
      s.history ++ call.effect s.pool (call.run s.pool).1 (call.run s.pool).2
    else s.history

/-- The static variables before the first call. -/
def Mailbox.reset (devices : D) (request : Request) : Mailbox D :=
  ⟨⟨⟨⟨0, 0, 0⟩, devices, 0, 0, 0, false⟩, request, false⟩, []⟩

/-- The runs of the mailbox. -/
def mailboxRuns : Lib.Transition (TryLock (Mailbox D) (Checked D)) :=
  TryLock.runs (fun s => ∃ devices request, s = .reset devices request) Call.check Mailbox.call

/-- The variables that belong to what occupies the slot. While there is a request, the shared
parameters are those of its copy. -/
def Slot.Holds (slot : Slot) (s : Pool D) : Prop :=
  match slot with
  | .free => s.pool.busy = false
  | .waiting r => s.pool.busy = true ∧ s.taken = false ∧ s.request = r ∧ s.pool.params = r.params
  | .taken r => s.pool.busy = true ∧ s.taken = true ∧ s.request = r ∧ s.pool.params = r.params
  | .boot => s.pool.busy = true ∧ s.taken = true ∧ s.request.id = 0

theorem Pool.nextId_ne_zero (s : Pool D) : s.nextId ≠ 0 := by
  unfold Pool.nextId
  split
  · decide
  · assumption

theorem Slot.Holds.busy {slot : Slot} {s : Pool D} (h : slot.Holds s) (hslot : slot ≠ .free) :
    s.pool.busy = true := by
  cases slot with
  | free => exact absurd rfl hslot
  | waiting r => exact h.1
  | taken r => exact h.1
  | boot => exact h.1

theorem Slot.Holds.free {slot : Slot} {s : Pool D} (h : slot.Holds s) (hbusy : s.pool.busy ≠ true) :
    slot = .free := by
  by_contra hslot
  exact hbusy (h.busy hslot)

section guarded
variable {c : Prop} [Decidable c] {s : Pool D} {r : Pool D × Reply D}

theorem guarded_refused (h : (if c then (s, .refused) else r).2.accepted = false)
    (hr : r.2.accepted = true) : (if c then (s, .refused) else r).1 = s := by
  split
  · rfl
  · next hc =>
    rw [if_neg hc, hr] at h
    cases h

theorem guarded_accepted (h : (if c then (s, .refused) else r).2.accepted = true) :
    ¬ c ∧ (if c then (s, .refused) else r) = r := by
  have hc : ¬ c := by
    intro hc
    rw [if_pos hc] at h
    cases h
  exact ⟨hc, if_neg hc⟩

end guarded

/-- **A call that is refused** changes nothing. -/
theorem Checked.run_refused {s : Pool D} (call : Checked D) (h : (call.run s).2.accepted = false) :
    (call.run s).1 = s := by
  cases call with
  | configure params => exact guarded_refused h rfl
  | request device command => exact guarded_refused h rfl
  | read => cases h
  | take => exact guarded_refused h rfl
  | finish id result restored devices => exact guarded_refused h rfl
  | probe devices => cases h
  | bootBegin defaults => exact guarded_refused h rfl

/-- The history keeps to the protocol, and the variables say what occupies the slot. -/
def Mailbox.Sound (s : Mailbox D) : Prop :=
  ∃ slot, Slot.after s.history = some slot ∧ slot.Holds s.pool

theorem Mailbox.call_refused {s : Mailbox D} {call : Checked D}
    (h : (call.run s.pool).2.accepted = false) : s.call call = s := by
  unfold Mailbox.call
  rw [call.run_refused h, h]
  rfl

theorem Mailbox.history_call {s : Mailbox D} {call : Checked D}
    (h : (call.run s.pool).2.accepted = true) :
    (s.call call).history =
      s.history ++ call.effect s.pool (call.run s.pool).1 (call.run s.pool).2 :=
  if_pos h

/-- A call that changes the slot. -/
theorem Mailbox.sound_of_next {s : Mailbox D} {call : Checked D} {slot : Slot} {d : Done}
    (slot' : Slot)
    (hafter : Slot.after s.history = some slot) (hok : (call.run s.pool).2.accepted = true)
    (heffect : call.effect s.pool (call.run s.pool).1 (call.run s.pool).2 = [d])
    (hnext : slot.next d = some slot') (hholds : slot'.Holds (call.run s.pool).1) :
    (s.call call).Sound := by
  refine ⟨slot', ?_, hholds⟩
  rw [Mailbox.history_call hok, heffect, Slot.after_concat, hafter]
  exact hnext

/-- A call that leaves the slot. -/
theorem Mailbox.sound_of_same {s : Mailbox D} {call : Checked D} {slot : Slot}
    (hafter : Slot.after s.history = some slot)
    (heffect : call.effect s.pool (call.run s.pool).1 (call.run s.pool).2 = [])
    (hholds : slot.Holds (call.run s.pool).1) : (s.call call).Sound := by
  refine ⟨slot, ?_, hholds⟩
  unfold Mailbox.call
  dsimp only
  rw [heffect, List.append_nil, ite_self]
  exact hafter

/-- **Every call** keeps to the protocol. -/
theorem Mailbox.Sound.call {s : Mailbox D} (h : s.Sound) (call : Checked D) :
    (s.call call).Sound := by
  cases hok : (call.run s.pool).2.accepted with
  | false =>
    rw [Mailbox.call_refused hok]
    exact h
  | true =>
  obtain ⟨slot, hafter, hholds⟩ := h
  cases call with
  | configure params =>
    obtain ⟨hfree, hrun⟩ := guarded_accepted hok
    change Checked.run s.pool (.configure params) = _ at hrun
    obtain rfl := hholds.free hfree
    refine Mailbox.sound_of_same hafter rfl ?_
    rw [hrun]
    exact hholds
  | read => exact Mailbox.sound_of_same hafter rfl hholds
  | probe devices =>
    refine Mailbox.sound_of_same hafter rfl ?_
    cases slot with
    | free => exact hholds
    | waiting r => exact hholds
    | taken r => exact hholds
    | boot => exact hholds
  | request device command =>
    obtain ⟨hfree, hrun⟩ := guarded_accepted hok
    change Checked.run s.pool (.request device command) = _ at hrun
    rw [hholds.free hfree] at hafter
    refine Mailbox.sound_of_next
      (.waiting ⟨s.pool.pool.params, command, s.pool.nextId, device⟩) hafter hok rfl ?_ ?_
    · rw [hrun]
      exact if_neg s.pool.nextId_ne_zero
    · rw [hrun]
      exact ⟨rfl, rfl, rfl, rfl⟩
  | take =>
    obtain ⟨hgo, hrun⟩ := guarded_accepted hok
    change Checked.run s.pool .take = _ at hrun
    rw [not_or] at hgo
    cases slot with
    | free => exact absurd hholds hgo.1
    | taken r => exact absurd hholds.2.1 hgo.2
    | boot => exact absurd hholds.2.1 hgo.2
    | waiting r =>
      obtain ⟨hbusy, -, rfl, hparams⟩ := hholds
      refine Mailbox.sound_of_next (d := .taken s.pool.request) (.taken s.pool.request)
        hafter hok ?_ (if_pos rfl) ?_
      · rw [hrun]
        rfl
      · rw [hrun]
        exact ⟨hbusy, rfl, rfl, hparams⟩
  | finish id result restored devices =>
    obtain ⟨hgo, hrun⟩ := guarded_accepted hok
    change Checked.run s.pool (.finish id result restored devices) = _ at hrun
    have hfree : Slot.Holds .free (Checked.run s.pool (.finish id result restored devices)).1 := by
      rw [hrun]
      rfl
    rw [not_or, not_or, not_not] at hgo
    cases slot with
    | free => exact absurd hholds hgo.1
    | waiting r => exact absurd hholds.2.1 hgo.2.1
    | taken r =>
      refine Mailbox.sound_of_next .free hafter hok rfl (if_pos ?_) hfree
      rw [← hholds.2.2.1]
      exact hgo.2.2.symm
    | boot =>
      exact Mailbox.sound_of_next .free hafter hok rfl (if_pos (hgo.2.2.symm.trans hholds.2.2))
        hfree
  | bootBegin defaults =>
    obtain ⟨hfree, hrun⟩ := guarded_accepted hok
    change Checked.run s.pool (.bootBegin defaults) = _ at hrun
    rw [hholds.free hfree] at hafter
    refine Mailbox.sound_of_next .boot hafter hok rfl rfl ?_
    rw [hrun]
    exact ⟨rfl, rfl, rfl⟩

theorem mailboxRuns_sound {s : TryLock (Mailbox D) (Checked D)} (h : mailboxRuns.Reachable s) :
    s.data.Sound := by
  refine TryLock.invariant (P := Mailbox.Sound) (fun s hs => ?_) (fun call s hs => hs.call call) h
  obtain ⟨devices, request, rfl⟩ := hs
  exact ⟨.free, rfl, rfl⟩

/-- While there is a request, no other is accepted, and only its end may change the parameters. -/
theorem Slot.Holds.frozen {slot : Slot} {s : Pool D} (h : slot.Holds s) {r : Request}
    (hr : r ∈ slot.outstanding) :
    s.pool.params = r.params ∧
    (∀ device command, (s.businessRequest device command).2.accepted = false) ∧
    ∀ call : Checked D, (call.run s).1.pool.params = r.params ∨
      ∃ id result restored devices, call = .finish id result (some restored) devices ∧
        slot = .taken r ∧ id = r.id ∧ (call.run s).1.pool.params = restored := by
  have hbusy : s.pool.busy = true := h.busy (by rintro rfl; exact absurd hr List.not_mem_nil)
  have hparams : s.pool.params = r.params := by
    cases slot with
    | waiting r' =>
      rw [List.mem_singleton.mp hr]
      exact h.2.2.2
    | taken r' =>
      rw [List.mem_singleton.mp hr]
      exact h.2.2.2
    | free => exact absurd hr List.not_mem_nil
    | boot => exact absurd hr List.not_mem_nil
  have hrefused (device : Device) (command : Command) :
      s.businessRequest device command = (s, .refused) :=
    if_pos hbusy
  refine ⟨hparams, fun device command => by rw [hrefused]; rfl, fun call => ?_⟩
  cases call with
  | configure params =>
    have hrun : s.businessConfigure params = (s, .refused) := if_pos hbusy
    exact Or.inl ((congrArg (fun p => p.1.pool.params) hrun).trans hparams)
  | request device command =>
    exact Or.inl ((congrArg (fun p => p.1.pool.params) (hrefused device command)).trans hparams)
  | read => exact Or.inl hparams
  | probe devices => exact Or.inl hparams
  | take =>
    left
    show s.exchangeTake.1.pool.params = _
    unfold Pool.exchangeTake
    split <;> exact hparams
  | bootBegin defaults =>
    have hrun : s.exchangeBootBegin defaults = (s, .refused) := if_pos hbusy
    exact Or.inl ((congrArg (fun p => p.1.pool.params) hrun).trans hparams)
  | finish id result restored devices =>
    show (s.exchangeFinish id result restored devices).1.pool.params = _ ∨
      ∃ id' result' restored' devices',
      _ ∧ _ ∧ _ ∧ (s.exchangeFinish id result restored devices).1.pool.params = restored'
    unfold Pool.exchangeFinish
    split
    · exact Or.inl hparams
    next hgo =>
    rw [not_or, not_or, not_not] at hgo
    cases restored with
    | none => exact Or.inl hparams
    | some restored =>
      refine Or.inr ⟨id, result, restored, devices, rfl, ?_, ?_, rfl⟩
      · cases slot with
        | taken r' => rw [List.mem_singleton.mp hr]
        | waiting r' => exact absurd h.2.1 hgo.2.1
        | free => exact absurd hr List.not_mem_nil
        | boot => exact absurd hr List.not_mem_nil
      · cases slot with
        | taken r' =>
          rw [List.mem_singleton.mp hr, ← h.2.2.1]
          exact hgo.2.2.symm
        | waiting r' => exact absurd h.2.1 hgo.2.1
        | free => exact absurd hr List.not_mem_nil
        | boot => exact absurd hr List.not_mem_nil

/-- **Exactly once**: at most one call is inside, and the calls that succeeded keep to the
protocol of the slot, so each request is taken once, as it was accepted, and finished once,
under its own number. What waits can be taken, and what is taken can be finished. While there
is a request no other is accepted and only its end changes the parameters, and a call that
is refused changes nothing. -/
theorem demo_storage_mailbox_exactly_once {s : TryLock (Mailbox D) (Checked D)}
    (h : mailboxRuns.Reachable s) :
    s.inside.length ≤ 1 ∧
    (∃ slot, Slot.after s.data.history = some slot ∧
      acceptedRequests s.data.history = takenRequests s.data.history ++ slot.untaken ∧
      (acceptedRequests s.data.history).map Request.id =
        finishedIds s.data.history ++ slot.outstanding.map Request.id ∧
      (∀ r, slot = .waiting r → s.data.pool.exchangeTake.2.request = some r) ∧
      (∀ r, slot = .taken r → ∀ result restored devices,
        (s.data.pool.exchangeFinish r.id result restored devices).2.accepted = true) ∧
      ∀ r ∈ slot.outstanding, s.data.pool.pool.params = r.params ∧
        (∀ device command, (s.data.pool.businessRequest device command).2.accepted = false) ∧
        ∀ call : Checked D, (call.run s.data.pool).1.pool.params = r.params ∨
          ∃ id result restored devices, call = .finish id result (some restored) devices ∧
            slot = .taken r ∧ id = r.id ∧ (call.run s.data.pool).1.pool.params = restored) ∧
    ∀ call : Checked D, (call.run s.data.pool).2.accepted = false →
      (call.run s.data.pool).1 = s.data.pool := by
  obtain ⟨slot, hafter, hholds⟩ := mailboxRuns_sound h
  obtain ⟨htaken, hfinished, -⟩ := Slot.accounts hafter
  refine ⟨(TryLock.exclusive h).length_le, ⟨slot, hafter, htaken, hfinished, ?_, ?_,
    fun r hr => hholds.frozen hr⟩, fun call hrefused => call.run_refused hrefused⟩
  · rintro r rfl
    obtain ⟨hbusy, huntaken, hrequest, -⟩ := hholds
    unfold Pool.exchangeTake
    rw [if_neg (by simp [hbusy, huntaken])]
    exact congrArg some hrequest
  · rintro r rfl result restored devices
    obtain ⟨hbusy, htaken', hrequest, -⟩ := hholds
    unfold Pool.exchangeFinish
    rw [if_neg (by simp [hbusy, htaken', hrequest])]
    rfl

end

/-- The service starts, a request is accepted, taken and finished, and another one waits. -/
def demoMailbox : Mailbox Unit :=
  [.bootBegin defaults, .finish 0 0 none (), .request .nor .save, .take, .finish 1 0 none (),
    .request .nand .load].foldl (fun s call => s.call call) (.reset () ⟨⟨0, 0, 0⟩, .scan, 0, .nor⟩)

/-- A call goes through. -/
theorem mailbox_step {s : Mailbox Unit} (h : mailboxRuns.Reachable ⟨false, s, []⟩)
    (call : Call Unit)
    {op : Checked Unit} (hcheck : call.check = some op) :
    mailboxRuns.Reachable ⟨false, s.call op, []⟩ := by
  have henter := Lib.Transition.Reachable.step h (Or.inl ⟨call, rfl⟩)
  rw [hcheck] at henter
  have hwork := Lib.Transition.Reachable.step henter (Or.inr (.work (i := 0) rfl))
  exact Lib.Transition.Reachable.step hwork (Or.inr (.leave (i := 0) rfl))

theorem demoMailbox_reachable : mailboxRuns.Reachable ⟨false, demoMailbox, []⟩ := by
  have hstart : mailboxRuns.Reachable ⟨false, .reset () ⟨⟨0, 0, 0⟩, .scan, 0, .nor⟩, []⟩ :=
    .start ⟨⟨(), _, rfl⟩, rfl, rfl⟩
  have hboot := mailbox_step hstart (.bootBegin (some defaults)) rfl
  have hready := mailbox_step hboot (.finish 0 0 none (some ())) rfl
  have haccepted := mailbox_step hready (.request 0 2) rfl
  have htaken := mailbox_step haccepted (.take true) rfl
  have hfinished := mailbox_step htaken (.finish 1 0 none (some ())) rfl
  exact mailbox_step hfinished (.request 1 3) rfl

theorem demoMailbox_exactly_once : finishedIds demoMailbox.history = [1] ∧
    ∃ slot, Slot.after demoMailbox.history = some slot ∧
      (acceptedRequests demoMailbox.history).map Request.id =
        [1] ++ slot.outstanding.map Request.id := by
  have hids : finishedIds demoMailbox.history = [1] := by decide
  obtain ⟨-, ⟨slot, hafter, -, hfinished, -⟩, -⟩ :=
    demo_storage_mailbox_exactly_once demoMailbox_reachable
  exact ⟨hids, slot, hafter, hids ▸ hfinished⟩

end Atoman.DemoStorage
