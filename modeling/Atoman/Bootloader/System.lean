import Atoman.Bootloader.Core
import Atoman.Lib.Transition

/-!
# The bootloader and its storage over many boots

A `World` is the core, the flash contents and the operation in flight. Storage
finishes an operation at the moment the core sees it idle; a refused, failed or
interrupted write or erase has handled a prefix of its range. A boot may come at
any time and cuts the operation in flight. `History` is ghost state: what was
observed at the core's interfaces, never read by the core.
-/

namespace Atoman.Bootloader
open Lib

/-- Contents of the logical regions. -/
abbrev Flash := FlashZone → Memory UInt8

/-- How the storage treats an operation: how far a cut one gets and what a read delivers. -/
structure Storage where
  progress : ℕ
  delivered : List UInt8

/-- Bytes an operation handles. -/
def FlashOp.size : FlashOp → ℕ
  | .read _ _ length _ => length
  | .write _ _ data => data.length
  | .erase _ _ length => length

/-- The flash after the first `k` bytes of an operation. -/
def FlashOp.apply (op : FlashOp) (k : ℕ) (flash : Flash) : Flash :=
  match op with
  | .read .. => flash
  | .write zone offset data =>
    Function.update flash zone ((flash zone).write offset (data.take k))
  | .erase zone offset length =>
    Function.update flash zone ((flash zone).write offset ((List.replicate length 0xFF).take k))

/-- A read fills its buffer with at most the requested bytes. -/
def FlashOp.deliver (op : FlashOp) (bytes : List UInt8) (c : Core) : Core :=
  match op with
  | .read _ _ length .packetBuffer =>
    { c with packetBuffer := c.packetBuffer.write 0 (bytes.take length) }
  | .read _ _ length (.copyBuffer offset) =>
    { c with copyBuffer := c.copyBuffer.write offset (bytes.take length) }
  | _ => c

/-- The bytes a read left in its buffer. -/
def ReadTarget.contents (c : Core) (length : ℕ) : ReadTarget → List UInt8
  | .packetBuffer => c.packetBuffer.slice 0 length
  | .copyBuffer offset => c.copyBuffer.slice offset length

/-- Observations. A completed operation carries the phase that waited for it. -/
inductive Event
  | submitted (op : FlashOp)
  | readDone (phase : BootState) (zone : FlashZone) (offset : ℕ) (data : List UInt8)
  | writeDone (phase : BootState) (zone : FlashZone) (offset : ℕ) (data : List UInt8)
  | eraseDone (phase : BootState) (zone : FlashZone) (offset length : ℕ)
  | headerChecked (header : List UInt8) (imageSize : UInt32) (accepted : Bool)
  | sessionBegun
  | packetAccepted (data : List UInt8)
  | sessionEnded
  | jumped
  deriving DecidableEq, Repr

structure World where
  core : Core
  flash : Flash
  pending : Option FlashOp

/-- What happens next. -/
inductive Action
  | boot (args : InitArgs) (cut : ℕ)
  | process (env : Env) (storage : Storage)
  | upgradeBegin (env : Env) (info : Option UpgradeInfo) (mode : Option UpgradeMode)
  | packetSubmit (env : Env) (storage : Storage) (offset : UInt32) (data : Option (List UInt8))
  | upgradeEnd (expectedCrc : UInt16)

def FlashOp.doneEvent (op : FlashOp) (c : Core) : Event :=
  match op with
  | .read zone offset length target => .readDone c.state zone offset (target.contents c length)
  | .write zone offset data => .writeDone c.state zone offset data
  | .erase zone offset length => .eraseDone c.state zone offset length

/-- The storage goes idle: the operation in flight takes effect. -/
def World.settle (w : World) (env : Env) (st : Storage) : World × List Event :=
  match w.pending with
  | some op =>
    if w.core.state.waiting && !env.busy then
      let c := op.deliver st.delivered w.core
      let k := if env.result = .success then op.size else st.progress
      (⟨c, op.apply k w.flash, none⟩, if env.result = .success then [op.doneEvent c] else [])
    else (w, [])
  | none => (w, [])

/-- The storage answers a call of the core. -/
def World.answer (w : World) (env : Env) (st : Storage) : Call → World × List Event
  | .flash op =>
    (if env.submit.accepted then { w with pending := some op }
      else { w with flash := op.apply st.progress w.flash },
      [.submitted op])
  | .headerIsValid header imageSize accepted => (w, [.headerChecked header imageSize accepted])
  | .jumpToIap => (w, [.jumped])

/-- The calls of one invocation, in order. -/
def World.answerAll (w : World) (env : Env) (st : Storage) : List Call → World × List Event
  | [] => (w, [])
  | call :: calls =>
    let (w₁, es₁) := w.answer env st call
    let (w₂, es₂) := w₁.answerAll env st calls
    (w₂, es₁ ++ es₂)

/-- The flash a power cut leaves: the operation in flight got `k` bytes far. -/
def World.cutFlash (w : World) (k : ℕ) : Flash :=
  match w.pending with
  | some op => op.apply k w.flash
  | none => w.flash

/-- One step, with what it lets an observer see. -/
def World.step (w : World) : Action → World × List Event
  | .boot args cut => (⟨bootloaderInit args, w.cutFlash cut, none⟩, [])
  | .process env st =>
    let (w₁, es₁) := w.settle env st
    let (c, calls) := process env w₁.core
    let (w₂, es₂) := World.answerAll { w₁ with core := c } env st calls
    (w₂, es₁ ++ es₂)
  | .upgradeBegin env info mode =>
    let (c, r) := Bootloader.upgradeBegin env w.core info mode
    ({ w with core := c }, if r = .success then [.sessionBegun] else [])
  | .packetSubmit env st offset data =>
    let (c, r, calls) := Bootloader.packetSubmit env w.core offset data
    let (w₁, es) := World.answerAll { w with core := c } env st calls
    (w₁, es ++ if r = .success ∧ calls ≠ [] then [.packetAccepted (data.getD [])] else [])
  | .upgradeEnd expectedCrc =>
    let (c, r) := Bootloader.upgradeEnd w.core expectedCrc
    ({ w with core := c }, if r = .success then [.sessionEnded] else [])

/-- What the run has done, across boots. The core never reads it. -/
structure Ledger where
  /-- The IAP region was handed to an erase or program operation after the last
  `VALID` record was handed to the storage. -/
  touched : Bool
  /-- Packets taken by the session of this boot, since its last `upgradeBegin`. -/
  accepted : List UInt8
  /-- The packets of the last session whose `upgradeEnd` succeeded. -/
  ended : List UInt8
  /-- Ranges programmed into the IAP region since its last erase. -/
  written : List (ℕ × ℕ)
  /-- Ranges compared with their source after being copied, since that erase. -/
  compared : List (ℕ × ℕ)
  /-- Ranges folded into the final CRC, since that erase. -/
  readback : List (ℕ × ℕ)

def FlashOp.touchesIap : FlashOp → Bool
  | .write .iap _ _ => true
  | .erase .iap _ _ => true
  | _ => false

/-- The bytes are those of a `VALID` record. -/
def isValidRecord (data : List UInt8) : Bool :=
  (metadataDecode data).any fun m => m.state = .valid

/-- The operation programs a `VALID` record. -/
def FlashOp.commitsValid : FlashOp → Bool
  | .write .metaA 0 data => isValidRecord data
  | .write .metaB 0 data => isValidRecord data
  | _ => false

def Ledger.observe (g : Ledger) : Event → Ledger
  | .submitted op => { g with touched := (g.touched || op.touchesIap) && !op.commitsValid }
  | .readDone .copyVerifyReadWait .iap offset data =>
    { g with compared := g.compared ++ [(offset, data.length)] }
  | .readDone .verifyReadWait .iap offset data =>
    { g with readback := g.readback ++ [(offset, data.length)] }
  | .writeDone _ .iap offset data => { g with written := g.written ++ [(offset, data.length)] }
  | .eraseDone _ .iap _ _ => { g with written := [], compared := [], readback := [] }
  | .sessionBegun => { g with accepted := [] }
  | .packetAccepted data => { g with accepted := g.accepted ++ data }
  | .sessionEnded => { g with ended := g.accepted }
  | _ => g

/-- Ghost state: the observations of the current boot, oldest first, and the ledger. -/
structure History where
  log : List Event
  ledger : Ledger

def History.observe (h : History) (e : Event) : History := ⟨h.log ++ [e], h.ledger.observe e⟩

/-- A boot starts a new log and drops an open session. -/
def History.rebooted (h : History) : History := ⟨[], { h.ledger with accepted := [] }⟩

/-- Core, storage and what was observed so far. -/
structure Sys where
  world : World
  history : History

def Sys.step (s : Sys) (a : Action) : Sys :=
  let (w, es) := s.world.step a
  let h := match a with
    | .boot .. => s.history.rebooted
    | _ => s.history
  ⟨w, es.foldl History.observe h⟩

def History.empty : History := ⟨[], ⟨false, [], [], [], [], []⟩⟩

/-- A powered-off device; the first action that matters is a boot. -/
def Sys.initial (flash : Flash) (buffer : Memory UInt8) : Sys :=
  ⟨⟨Core.cleared buffer buffer, flash, none⟩, .empty⟩

/-- What a read of the operation in flight should deliver. -/
def World.faithful (w : World) (delivered : List UInt8) : Prop :=
  ∀ zone offset length target, w.pending = some (.read zone offset length target) →
    delivered = (w.flash zone).slice offset length

/-- The two metadata reads of a boot succeed and deliver what the zones hold. With
`reads`, every read that reports success does. -/
def World.Admits (reads : Prop) (w : World) : Action → Prop
  | .process env st =>
    (w.core.state = .metaARead ∨ w.core.state = .metaBRead → env.submit.accepted) ∧
    (w.core.state = .metaAWait ∨ w.core.state = .metaBWait → env.busy = false →
      env.result = .success ∧ w.faithful st.delivered) ∧
    (reads → env.result = .success → w.faithful st.delivered)
  | _ => True

/-- Decoded contents of a metadata zone. -/
def Flash.copy (flash : Flash) (z : FlashZone) : Option Metadata :=
  metadataDecode ((flash z).slice 0 metadataEncodedSize)

/-- The newest record in flash and its zone. -/
def Flash.selected (flash : Flash) : Option (Metadata × FlashZone) :=
  metadataSelect ((flash .metaA).slice 0 metadataEncodedSize)
    ((flash .metaB).slice 0 metadataEncodedSize)

/-- An installation from staging is under way. -/
def Metadata.Installing (m : Metadata) : Prop := m.state = .installPending ∨ m.state = .copying

/-- Records after which a boot must not start the IAP image as it is. -/
def Metadata.Blocking (m : Metadata) : Prop :=
  m.state = .downloadDirect ∨ m.state = .downloadStaged ∨ m.Installing

instance (m : Metadata) : Decidable m.Installing := by unfold Metadata.Installing; infer_instance
instance (m : Metadata) : Decidable m.Blocking := by unfold Metadata.Blocking; infer_instance

/-- Runs from a flash without an unfinished installation, under the storage assumption. -/
def runs (reads : Prop) : Transition Sys where
  init s := ∃ flash buffer, s = Sys.initial flash buffer ∧
    ∀ z m, flash.copy z = some m → ¬ m.Installing
  next s t := ∃ a, s.world.Admits reads a ∧ t = s.step a

end Atoman.Bootloader
