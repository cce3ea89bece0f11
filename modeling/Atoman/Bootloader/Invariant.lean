import Atoman.Bootloader.Selection
import Atoman.Lib.Tiling

/-!
# What holds in every phase

The invariant ties three things together: the two metadata copies, the regions an
installation works on, and the core's fields. `FlashOk` is about flash alone and
therefore survives a power cut; `Synced` says that the core knows which copy is
the newest; `PhaseOk` adds what each phase has established. Claims about bytes the
storage returned are guarded by `reads`, the assumption that reads are faithful.
-/

namespace Atoman.Bootloader
open Lib

/-- The operation a waiting phase waits for. -/
def expectedOp (c : Core) : Option FlashOp :=
  match c.state with
  | .metaAWait => some (.read .metaA 0 metadataEncodedSize (.copyBuffer 0))
  | .metaBWait => some (.read .metaB 0 metadataEncodedSize (.copyBuffer metadataEncodedSize))
  | .startupWait | .finalReadWait =>
    some (.read .iap 0 c.config.imageHeaderLength.toNat .packetBuffer)
  | .downloadEraseWait => some (.erase c.downloadZone 0 c.upgradeInfo.fileSize.toNat)
  | .packetWriteWait => some (.write c.downloadZone c.pendingPacketOffset.toNat
      (c.packetBuffer.slice 0 c.pendingPacketLength.toNat))
  | .copyEraseWait => some (.erase .iap 0 c.upgradeInfo.fileSize.toNat)
  | .copyReadWait =>
    some (.read .staging c.copyOffset.toNat c.copyChunkLength.toNat (.copyBuffer 0))
  | .copyWriteWait => some (.write .iap c.copyOffset.toNat
      (c.copyBuffer.slice 0 c.copyChunkLength.toNat))
  | .copyVerifyReadWait =>
    some (.read .iap c.copyOffset.toNat c.copyChunkLength.toNat (.copyBuffer 0))
  | .verifyReadWait =>
    some (.read .iap c.verifyOffset.toNat c.copyChunkLength.toNat (.copyBuffer 0))
  | .metadataEraseWait => some (.erase c.metadataTargetZone 0 metadataEncodedSize)
  | .metadataWriteWait =>
    some (.write c.metadataTargetZone 0 (c.copyBuffer.slice 0 metadataEncodedSize))
  | _ => none

/-! ## Flash -/

/-- What a record that may be selected promises. -/
structure RecordOk (flash : Flash) (g : Ledger) (m : Metadata) : Prop where
  shape : m.Installing → m.mode = .staged ∧ m.fileSize ≠ 0
  blocking : g.touched = true → m.Blocking
  staged : m.Installing → (flash .staging).slice 0 m.fileSize.toNat = g.ended

structure FlashOk (flash : Flash) (g : Ledger) : Prop where
  record : ∀ m z, flash.selected = some (m, z) → RecordOk flash g m
  present : g.touched = true → flash.selected ≠ none

/-- The source copy and the sequence in RAM are those of flash. -/
structure Synced (flash : Flash) (g : Ledger) (c : Core) : Prop where
  source : c.metadataSourceZone.IsCopy
  record : ∀ r, flash.copy c.metadataSourceZone = some r →
    r.sequence = c.metadataSequence ∧ RecordOk flash g r
  present : g.touched = true → flash.copy c.metadataSourceZone ≠ none
  buffer : 84 ≤ c.config.copyBufferSize

/-- The last commit of this boot is the newest record. -/
def Current (flash : Flash) (c : Core) : Prop :=
  ∃ r, flash.copy c.metadataSourceZone = some r ∧ r.state = c.metadataState ∧
    flash.selected = some (r, c.metadataSourceZone)

/-! ## Evidence in the log -/

/-- No operation on the IAP region was handed to the storage. -/
def Quiet (log : List Event) : Prop :=
  ∀ op : FlashOp, Event.submitted op ∈ log → op.touchesIap = false

/-- The events occur in this order, and the IAP region was left alone ever since. -/
def Undisturbed (events log : List Event) : Prop :=
  ∃ before after, log = before ++ after ∧ events.Sublist after ∧ Quiet after

/-- Readback of consecutive chunks from `offset` on. -/
def readbackEvents : ℕ → List (List UInt8) → List Event
  | _, [] => []
  | offset, d :: ds =>
    Event.readDone .verifyReadWait .iap offset d :: readbackEvents (offset + d.length) ds

/-- The CRC of a readback, chunk by chunk. -/
def foldCrc (cfg : Config) (chunks : List (List UInt8)) : UInt16 :=
  chunks.foldl (fun crc d => cfg.crc16Update d crc) cfg.crc16Init

/-- The selection between two copies lets the installed image start. -/
def AllowsStart (a b : List UInt8) : Prop :=
  ∀ m z, metadataSelect a b = some (m, z) → ¬ m.Blocking ∧ m.state ≠ .failed

/-- The two metadata reads of a boot. -/
def metadataReads (a b : List UInt8) : List Event :=
  [.readDone .metaAWait .metaA 0 a, .readDone .metaBWait .metaB 0 b]

/-- This boot read both copies and their selection lets the installed image start. -/
def StartupChosen (log : List Event) : Prop :=
  ∃ a b, (metadataReads a b).Sublist log ∧ AllowsStart a b

/-- The header read from offset 0 of the IAP region in `phase`, and accepted. -/
def headerEvents (phase : BootState) (header : List UInt8) (size : UInt32) : List Event :=
  [.readDone phase .iap 0 header, .headerChecked header size true]

/-- **Startup path.** The selection is followed by an accepted header read from offset 0. -/
def StartupEvidence (log : List Event) : Prop :=
  ∃ a b header size, (metadataReads a b ++ headerEvents .startupWait header size).Sublist log ∧
    AllowsStart a b

/-- A readback of `[0, size)` whose CRC is `crc`. -/
def ReadbackCrc (cfg : Config) (size : ℕ) (crc : UInt16) (chunks : List (List UInt8)) : Prop :=
  chunks.flatten.length = size ∧ foldCrc cfg chunks = crc

/-- A readback of `[0, size)` with CRC `crc` and after it an accepted header. -/
def ImageVerified (cfg : Config) (size : UInt32) (crc : UInt16) (log : List Event) : Prop :=
  ∃ chunks header, Undisturbed
      (readbackEvents 0 chunks ++ headerEvents .finalReadWait header size) log ∧
    ReadbackCrc cfg size.toNat crc chunks

/-- **Install path.** A `VALID` record was programmed after the image it describes was
read back and its header accepted. -/
def InstallEvidence (cfg : Config) (log : List Event) : Prop :=
  ∃ chunks header, ∃ (m : Metadata) (z : FlashZone), Undisturbed (readbackEvents 0 chunks
      ++ headerEvents .finalReadWait header m.fileSize
      ++ [Event.writeDone .metadataWriteWait z 0 (metadataEncode m)]) log ∧
    ReadbackCrc cfg m.fileSize.toNat m.expectedCrc chunks ∧ z.IsCopy ∧ m.state = .valid

/-- No metadata record has been programmed in this boot. -/
def NoCommit (log : List Event) : Prop :=
  ∀ zone offset data, Event.writeDone .metadataWriteWait zone offset data ∉ log

/-! ## Phases -/

/-- A download session is open. -/
structure DownloadOk (c : Core) : Prop where
  state : c.metadataState = downloadState c.mode
  zone : c.downloadZone = if c.mode = .staged then .staging else .iap
  size : c.upgradeInfo.fileSize ≠ 0

/-- The session has accepted nothing yet. -/
structure FreshOk (g : Ledger) (c : Core) : Prop where
  length : c.receivedLength = 0
  accepted : g.accepted = []

/-- The packets that are in flash follow each other. -/
structure ProgressOk (g : Ledger) (c : Core) : Prop where
  bound : c.receivedLength.toNat ≤ c.upgradeInfo.fileSize.toNat
  written : c.downloadZone = .iap → Tiles 0 g.written c.receivedLength.toNat
  unread : c.downloadZone = .iap → g.readback = []

/-- The download zone holds what the session has accepted. -/
structure ReceivedOk (flash : Flash) (g : Ledger) (c : Core) : Prop where
  progress : ProgressOk g c
  stored : (flash c.downloadZone).slice 0 c.receivedLength.toNat = g.accepted

/-- A packet is on its way to flash. -/
structure PacketOk (flash : Flash) (g : Ledger) (c : Core) : Prop where
  progress : ProgressOk g c
  offset : c.pendingPacketOffset = c.receivedLength
  bound : c.receivedLength.toNat + c.pendingPacketLength.toNat ≤ c.upgradeInfo.fileSize.toNat
  accepted : g.accepted = (flash c.downloadZone).slice 0 c.receivedLength.toNat
    ++ c.packetBuffer.slice 0 c.pendingPacketLength.toNat

/-- Staging holds a complete image that is to be installed. -/
structure InstallOk (flash : Flash) (g : Ledger) (c : Core) : Prop where
  state : c.metadataState = .installPending ∨ c.metadataState = .copying
  mode : c.mode = .staged
  size : c.upgradeInfo.fileSize ≠ 0
  staged : (flash .staging).slice 0 c.upgradeInfo.fileSize.toNat = g.ended

/-- The IAP region holds the first `done` bytes of the image and the first `checked` of
them have been compared. -/
structure CopyOk (reads : Prop) (flash : Flash) (g : Ledger) (done checked : ℕ) : Prop where
  copied : reads → (flash .iap).slice 0 done = g.ended.take done
  written : Tiles 0 g.written done
  compared : Tiles 0 g.compared checked
  unread : g.readback = []

/-- A chunk is being copied. -/
structure ChunkOk (c : Core) : Prop where
  pos : 0 < c.copyChunkLength.toNat
  bound : c.copyOffset.toNat + c.copyChunkLength.toNat ≤ c.upgradeInfo.fileSize.toNat

/-- The chunk in the copy buffer is the image's. -/
def ChunkLoaded (reads : Prop) (g : Ledger) (c : Core) : Prop :=
  reads → c.copyBuffer.slice 0 c.copyChunkLength.toNat
    = (g.ended.drop c.copyOffset.toNat).take c.copyChunkLength.toNat

/-- The whole image is in the IAP region. -/
structure Installed (reads : Prop) (flash : Flash) (g : Ledger) (c : Core) : Prop where
  length : g.ended.length = c.upgradeInfo.fileSize.toNat
  image : reads → (flash .iap).slice 0 c.upgradeInfo.fileSize.toNat = g.ended
  written : Tiles 0 g.written c.upgradeInfo.fileSize.toNat
  compared : c.mode = .staged → Tiles 0 g.compared c.upgradeInfo.fileSize.toNat
  size : c.upgradeInfo.fileSize ≠ 0

/-- The final readback has reached `verifyOffset`. -/
structure VerifyOk (log : List Event) (g : Ledger) (c : Core) : Prop where
  bound : c.verifyOffset.toNat ≤ c.upgradeInfo.fileSize.toNat
  readback : Tiles 0 g.readback c.verifyOffset.toNat
  evidence : ∃ chunks, Undisturbed (readbackEvents 0 chunks) log ∧
    ReadbackCrc c.config c.verifyOffset.toNat c.verifyCrc chunks

/-- The final readback is complete and has the expected CRC. -/
structure Verified (log : List Event) (g : Ledger) (c : Core) : Prop where
  readback : Tiles 0 g.readback c.upgradeInfo.fileSize.toNat
  evidence : ∃ chunks, Undisturbed (readbackEvents 0 chunks) log ∧
    ReadbackCrc c.config c.upgradeInfo.fileSize.toNat c.expectedCrc chunks

/-- Verified, and the header was read and accepted afterwards. -/
structure Certified (log : List Event) (g : Ledger) (c : Core) : Prop where
  readback : Tiles 0 g.readback c.upgradeInfo.fileSize.toNat
  evidence : ImageVerified c.config c.upgradeInfo.fileSize c.expectedCrc log

/-- The record state belongs to an image that may not be started. -/
def Unfinished (c : Core) : Prop :=
  c.metadataState = .downloadDirect ∨ c.metadataState = .installPending ∨
    c.metadataState = .copying

/-- What must hold for the phase a commit leads to. -/
def NextOk (reads : Prop) (flash : Flash) (log : List Event) (g : Ledger) (c : Core) :
    BootState → Prop
  | .downloadErase => DownloadOk c ∧ FreshOk g c
  | .downloadReady => DownloadOk c ∧ ReceivedOk flash g c
  | .copyErase => InstallOk flash g c
  | .copyRead => InstallOk flash g c ∧ c.copyOffset.toNat < c.upgradeInfo.fileSize.toNat ∧
      CopyOk reads flash g c.copyOffset.toNat c.copyOffset.toNat
  | .verifyRead => Unfinished c ∧ Installed reads flash g c ∧ VerifyOk log g c ∧
      c.verifyOffset.toNat < c.upgradeInfo.fileSize.toNat
  | .jumpPending => c.metadataState = .valid ∧ Installed reads flash g c ∧ Certified log g c
  | _ => False

/-- A commit is under way; the record sits encoded in the copy buffer. -/
structure CommitOk (reads : Prop) (flash : Flash) (log : List Event) (g : Ledger) (c : Core) :
    Prop where
  target : c.metadataTargetZone = otherCopy c.metadataSourceZone
  encoded : c.copyBuffer.slice 0 metadataEncodedSize = metadataEncode (metadataCurrent c)
  shape : (metadataCurrent c).Installing → c.mode = .staged ∧ c.upgradeInfo.fileSize ≠ 0
  blocking : (metadataCurrent c).Blocking ∨
    c.metadataState = .valid ∧ c.metadataNextState = .jumpPending
  staged : (metadataCurrent c).Installing →
    (flash .staging).slice 0 c.upgradeInfo.fileSize.toNat = g.ended
  next : NextOk reads flash log g c c.metadataNextState

/-- The jump is justified by this boot's log. -/
structure LaunchOk (reads : Prop) (flash : Flash) (log : List Event) (g : Ledger) (c : Core) :
    Prop where
  untouched : g.touched = false
  evidence : StartupEvidence log ∨ InstallEvidence c.config log
  installed : NoCommit log ∨
    Installed reads flash g c ∧ Tiles 0 g.readback c.upgradeInfo.fileSize.toNat

/-- The copy a commit replaces is erased. -/
def TargetErased (flash : Flash) (c : Core) : Prop :=
  (flash c.metadataTargetZone).slice 0 metadataEncodedSize
    = List.replicate metadataEncodedSize 0xFF

/-- A boot that has not looked at its metadata yet. -/
structure BootingOk (log : List Event) (g : Ledger) (c : Core) : Prop where
  buffer : 84 ≤ c.config.copyBufferSize
  fresh : NoCommit log
  accepted : g.accepted = []

/-- The first copy is in the buffer and in the log. -/
structure FirstRead (flash : Flash) (log : List Event) (c : Core) : Prop where
  buffer : c.copyBuffer.slice 0 metadataEncodedSize = (flash .metaA).slice 0 metadataEncodedSize
  logged : [Event.readDone .metaAWait .metaA 0
    ((flash .metaA).slice 0 metadataEncodedSize)].Sublist log

/-- A startup read is allowed. -/
structure StartupOk (log : List Event) (g : Ledger) : Prop where
  chosen : StartupChosen log
  untouched : g.touched = false
  fresh : NoCommit log

/-- What the phases after the evaluation of the metadata have established. -/
def EvaluatedOk (reads : Prop) (flash : Flash) (log : List Event) (g : Ledger) (c : Core) :
    BootState → Prop
  | .waitUpgrade => True
  | .startupRead | .startupWait => StartupOk log g
  | .jumpPending => LaunchOk reads flash log g c
  | .metadataErase | .metadataEraseWait => CommitOk reads flash log g c
  | .metadataWrite => CommitOk reads flash log g c ∧ TargetErased flash c
  | .metadataWriteWait => CommitOk reads flash log g c ∧ TargetErased flash c ∧
      (c.metadataState = .valid → g.touched = false)
  | .downloadErase | .downloadEraseWait => Current flash c ∧ DownloadOk c ∧ FreshOk g c
  | .downloadReady => Current flash c ∧ DownloadOk c ∧ ReceivedOk flash g c
  | .packetWriteWait => Current flash c ∧ DownloadOk c ∧ PacketOk flash g c
  | .copyErase | .copyEraseWait => Current flash c ∧ InstallOk flash g c
  | .copyRead => Current flash c ∧ InstallOk flash g c ∧
      c.copyOffset.toNat < c.upgradeInfo.fileSize.toNat ∧
      CopyOk reads flash g c.copyOffset.toNat c.copyOffset.toNat
  | .copyReadWait => Current flash c ∧ InstallOk flash g c ∧ ChunkOk c ∧
      CopyOk reads flash g c.copyOffset.toNat c.copyOffset.toNat
  | .copyWrite | .copyWriteWait => Current flash c ∧ InstallOk flash g c ∧ ChunkOk c ∧
      CopyOk reads flash g c.copyOffset.toNat c.copyOffset.toNat ∧ ChunkLoaded reads g c
  | .copyVerifyRead | .copyVerifyReadWait => Current flash c ∧ InstallOk flash g c ∧ ChunkOk c ∧
      CopyOk reads flash g (c.copyOffset.toNat + c.copyChunkLength.toNat) c.copyOffset.toNat
  | .verifyRead => Current flash c ∧ Unfinished c ∧ Installed reads flash g c ∧
      VerifyOk log g c ∧ c.verifyOffset.toNat < c.upgradeInfo.fileSize.toNat
  | .verifyReadWait => Current flash c ∧ Unfinished c ∧ Installed reads flash g c ∧
      VerifyOk log g c ∧
      c.verifyOffset.toNat + c.copyChunkLength.toNat ≤ c.upgradeInfo.fileSize.toNat
  | .finalRead | .finalReadWait => Current flash c ∧ Unfinished c ∧ Installed reads flash g c ∧
      Verified log g c
  | _ => False

/-- What a phase has established. -/
def PhaseOk (reads : Prop) (flash : Flash) (log : List Event) (g : Ledger) (c : Core) : Prop :=
  match c.state with
  | .uninitialized | .configError => True
  | .metaARead | .metaAWait => BootingOk log g c
  | .metaBRead | .metaBWait => BootingOk log g c ∧ FirstRead flash log c
  | s => Synced flash g c ∧ EvaluatedOk reads flash log g c s

/-- The invariant of a running device. -/
structure Inv (reads : Prop) (w : World) (h : History) : Prop where
  pending : w.pending = expectedOp w.core
  flash : FlashOk w.flash h.ledger
  phase : PhaseOk reads w.flash h.log h.ledger w.core

end Atoman.Bootloader
