import LivlyOS.Fs.Volume

/-! The ATA driver, one port access at a time, and the drive at the other end of the ports. The
drive works on its own and the timer ticks in between. -/

namespace LivlyOS.Fs.Sector

open LivlyOS.Lib

/-- The word of `uint16_t buf[256]` at an index. -/
def dataWord (sector : Sector) (index : Nat) : UInt16 := UInt16.ofNat (word sector.bytes (2 * index) 2)

def storeWord (buf : Sector) (index : Nat) (value : UInt16) : Sector :=
  ofBytes (putWord buf.bytes (2 * index) 2 value.toNat)

end LivlyOS.Fs.Sector

namespace LivlyOS.Drivers

open LivlyOS.Lib LivlyOS.Fs

/-- Idle, or at some point of a command. -/
inductive DrivePhase where
  | idle
  | reading (lba : Nat)
  | offering (sector : Sector) (sent : Nat)
  | settling
  | preparing (lba : Nat)
  | accepting (lba : Nat) (sector : Sector) (got : Nat)
  | committing (lba : Nat) (sector : Sector)
  | flushing

structure Drive where
  disk : Disk
  sectorCount : UInt8
  lbaLow : UInt8
  lbaMid : UInt8
  lbaHigh : UInt8
  device : UInt8
  phase : DrivePhase

namespace Drive

/-- The sector that the registers name. -/
def lba (drive : Drive) : Nat :=
  drive.lbaLow.toNat + 256 * drive.lbaMid.toNat + 65536 * drive.lbaHigh.toNat + 16777216 * (drive.device.toNat % 16)

/-- One sector of the first drive, addressed by its number. -/
def addressed (drive : Drive) : Bool := drive.sectorCount = 1 ∧ drive.device / 16 = 0x0E

/-- BSY alone while the drive works, then DRDY, and DRQ for data. -/
def status (drive : Drive) : UInt8 :=
  match drive.phase with
  | .idle => 0x40
  | .offering .. | .accepting .. => 0x48
  | _ => 0x80

def command (drive : Drive) (value : UInt8) : Option Drive :=
  if value = 0x20 ∧ drive.addressed then some { drive with phase := .reading drive.lba }
  else if value = 0x30 ∧ drive.addressed then some { drive with phase := .preparing drive.lba }
  else if value = 0xE7 then some { drive with phase := .flushing }
  else none

/-- What a write to the registers does while a command is under way is not said. -/
def outb (drive : Drive) (port : UInt16) (value : UInt8) : Option Drive :=
  match drive.phase with
  | .idle =>
    if port = 0x1F2 then some { drive with sectorCount := value }
    else if port = 0x1F3 then some { drive with lbaLow := value }
    else if port = 0x1F4 then some { drive with lbaMid := value }
    else if port = 0x1F5 then some { drive with lbaHigh := value }
    else if port = 0x1F6 then some { drive with device := value }
    else if port = 0x1F7 then drive.command value
    else none
  | _ => none

/-- The data port gives the next word while the drive offers a sector. -/
def inw (drive : Drive) : Option (UInt16 × Drive) :=
  match drive.phase with
  | .offering sector sent =>
    some (sector.dataWord sent, { drive with phase := if sent + 1 < 256 then .offering sector (sent + 1) else .settling })
  | _ => none

/-- The data port takes the next word while the drive asks for a sector. -/
def outw (drive : Drive) (value : UInt16) : Option Drive :=
  match drive.phase with
  | .accepting lba sector got =>
    let sector := sector.storeWord got value
    some { drive with phase := if got + 1 < 256 then .accepting lba sector (got + 1) else .committing lba sector }
  | _ => none

/-- The drive gets done with what it is at. -/
def work (drive : Drive) : Option Drive :=
  match drive.phase with
  | .reading lba => some { drive with phase := .offering (drive.disk lba) 0 }
  | .settling => some { drive with phase := .idle }
  | .preparing lba => some { drive with phase := .accepting lba .zero 0 }
  | .committing lba sector => some { drive with disk := Function.update drive.disk lba sector, phase := .idle }
  | .flushing => some { drive with phase := .idle }
  | _ => none

/-- A command fails: the drive is ready again without data. -/
def fail (drive : Drive) : Option Drive :=
  match drive.phase with
  | .reading _ | .preparing _ | .committing .. | .flushing => some { drive with phase := .idle }
  | _ => none

end Drive

inductive AtaCall where
  | read (lba : UInt32) (buf : Sector)
  | write (lba : UInt32) (buf : Sector)
  | flush

/-- The three waits of `ata_read_sector`. -/
inductive ReadWait where
  | bsy
  | drq
  | final
deriving DecidableEq

namespace ReadWait

/-- The condition of the loop. -/
def goesOn : ReadWait → UInt8 → Bool
  | .bsy, status => status &&& 0x80 ≠ 0
  | .drq, status => status &&& 0x08 = 0
  | .final, status => status &&& 0x80 ≠ 0

def timeout : ReadWait → String
  | .bsy => "ATA BSY timeout!\n"
  | .drq => "ATA DRQ timeout!\n"
  | .final => "ATA final timeout!\n"

end ReadWait

/-- The next port access or reading of the clock. -/
inductive AtaPc where
  | ready
  | setup (done : Nat)
  | readStart (wait : ReadWait)
  | readPoll (wait : ReadWait) (start : UInt64)
  | readTime (wait : ReadWait) (start : UInt64)
  | readData (i : Nat)
  | writeReady
  | writeDrq
  | writeData (i : Nat)
  | flushCommand
  | lastBsy

/-- A call that returned, with its buffer; `timedOut` is the wait that ran out. -/
structure AtaReturn where
  call : AtaCall
  timedOut : Option ReadWait
  buf : Sector

structure Ata where
  pc : AtaPc
  call : AtaCall
  buf : Sector
  drive : Drive
  ms : UInt64
  console : List String
  returned : List AtaReturn

/-- The six writes in front of a command. -/
def ataSetup (lba : UInt32) (command : UInt8) : List (UInt16 × UInt8) :=
  [(0x1F2, 1), (0x1F3, (lba &&& 0xFF).toUInt8), (0x1F4, ((lba >>> 8) &&& 0xFF).toUInt8),
    (0x1F5, ((lba >>> 16) &&& 0xFF).toUInt8), (0x1F6, ((0xE0 : UInt32) ||| ((lba >>> 24) &&& 0x0F)).toUInt8), (0x1F7, command)]

namespace AtaCall

def setup : AtaCall → List (UInt16 × UInt8)
  | .read lba _ => ataSetup lba 0x20
  | .write lba _ => ataSetup lba 0x30
  | .flush => []

/-- Where a call starts and where it goes on behind its command. -/
def first : AtaCall → AtaPc
  | .read .. => .setup 0
  | .write .. => .writeReady
  | .flush => .flushCommand

def commanded : AtaCall → AtaPc
  | .read .. => .readStart .bsy
  | .write .. => .writeDrq
  | .flush => .lastBsy

/-- The buffer that the caller passes. -/
def buffer : AtaCall → Sector
  | .read _ buf => buf
  | .write _ buf => buf
  | .flush => .zero

end AtaCall

namespace Ata

def ret (st : Ata) (timedOut : Option ReadWait) : Ata :=
  { st with
    pc := .ready
    console := st.console ++ (timedOut.map ReadWait.timeout).toList
    returned := st.returned ++ [⟨st.call, timedOut, st.buf⟩] }

/-- Behind a wait of `ata_read_sector`. -/
def waited (st : Ata) : ReadWait → Ata
  | .bsy => { st with pc := .readStart .drq }
  | .drq => { st with pc := .readData 0 }
  | .final => st.ret none

/-- One port access or reading of the clock of `ata_read_sector`, `ata_write_sector` or
`ata_flush`; nothing when the drive does not say what an access does. -/
def driver (st : Ata) : Option Ata :=
  match st.pc with
  | .ready => none
  | .setup done =>
    (st.call.setup[done]?).bind fun write => (st.drive.outb write.1 write.2).map fun drive =>
      { st with drive, pc := if done + 1 < 6 then .setup (done + 1) else st.call.commanded }
  | .readStart wait => some { st with pc := .readPoll wait st.ms }
  | .readPoll wait start =>
    some (if wait.goesOn st.drive.status then { st with pc := .readTime wait start } else st.waited wait)
  | .readTime wait start =>
    some (if st.ms - start > 5000 then st.ret wait else { st with pc := .readPoll wait start })
  | .readData i => st.drive.inw.map fun data =>
      { st with
        buf := st.buf.storeWord i data.1
        drive := data.2
        pc := if i + 1 < 256 then .readData (i + 1) else .readStart .final }
  | .writeReady =>
    some (if st.drive.status &&& 0x80 ≠ 0 then st
      else if st.drive.status &&& 0x40 ≠ 0 then { st with pc := .setup 0 }
      else st)
  | .writeDrq =>
    some (if st.drive.status &&& 0x80 ≠ 0 then st
      else if st.drive.status &&& 0x08 ≠ 0 then { st with pc := .writeData 0 }
      else st)
  | .writeData i => (st.drive.outw (st.buf.dataWord i)).map fun drive =>
      { st with drive, pc := if i + 1 < 256 then .writeData (i + 1) else .lastBsy }
  | .flushCommand => (st.drive.outb 0x1F7 0xE7).map fun drive => { st with drive, pc := .lastBsy }
  | .lastBsy => some (if st.drive.status &&& 0x80 ≠ 0 then st else st.ret none)

end Ata

/-- What happens next: a call, an access of the driver, the drive gets done or fails, a tick of the timer. -/
inductive AtaEvent where
  | call (call : AtaCall)
  | driver
  | work
  | fail
  | tick

namespace Ata

def step (st : Ata) : AtaEvent → Option Ata
  | .call call =>
    match st.pc with
    | .ready => some { st with pc := call.first, call, buf := call.buffer }
    | _ => none
  | .driver => st.driver
  | .work => st.drive.work.map fun drive => { st with drive }
  | .fail => st.drive.fail.map fun drive => { st with drive }
  | .tick => some { st with ms := st.ms + 1 }

/-- Nothing was called yet, and the drive is idle. -/
def start (drive : Drive) (ms : UInt64) : Ata := ⟨.ready, .flush, .zero, { drive with phase := .idle }, ms, [], []⟩

end Ata

end LivlyOS.Drivers
