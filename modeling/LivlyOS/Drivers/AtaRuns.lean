import LivlyOS.Drivers.AtaRegisters
import LivlyOS.Lib.Refinement

namespace LivlyOS.Drivers

open LivlyOS.Lib LivlyOS.Fs

/-- A call reads or writes a sector. -/
def diskSpec : Spec Disk AtaCall Sector where
  answer disk
    | .read lba _ => ataReadSector disk lba.toNat
    | .write _ buf => buf
    | .flush => .zero
  next disk
    | .write lba buf => ataWriteSector disk lba.toNat buf
    | _ => disk

/-- The waits in front of the data. -/
def ReadWait.early : ReadWait → Bool
  | .bsy | .drq => true
  | .final => false

/-- The buffer is untouched if the call gave up before the data, else it is as it should be. -/
def AtaReturn.Fits (disk : Disk) (result : AtaReturn) : Prop :=
  if result.timedOut.any ReadWait.early then result.buf = result.call.buffer
  else result.buf = diskSpec.answer disk result.call

/-- The calls so far, one behind the other, from one disk to another. -/
structure Serves (first : Disk) (returned : List AtaReturn) (disk : Disk) : Prop where
  disk_eq : disk = diskSpec.after first (returned.map AtaReturn.call)
  fits : ∀ done result rest, returned = done ++ result :: rest →
    result.Fits (diskSpec.after first (done.map AtaReturn.call))

theorem Serves.concat (serves : Serves first returned disk) (fits : AtaReturn.Fits disk result) :
    Serves first (returned ++ [result]) (diskSpec.next disk result.call) where
  disk_eq := by
    rw [List.map_append, List.map_singleton, Spec.after_concat, ← serves.disk_eq]
  fits done other rest split := by
    rcases List.append_eq_append_iff.mp split with ⟨middle, rfl, tail⟩ | ⟨middle, same, tail⟩
    · cases middle with
      | nil =>
        cases tail
        rw [List.append_nil, ← serves.disk_eq]
        exact fits
      | cons before middle => cases middle <;> cases tail
    · cases middle with
      | nil =>
        cases tail
        rw [List.append_nil] at same
        rw [← same, ← serves.disk_eq]
        exact fits
      | cons before middle =>
        cases tail
        exact serves.fits _ _ _ same

/-- The wait of `ata_read_sector` that the driver is in. -/
def AtaPc.wait : AtaPc → Option ReadWait
  | .readStart wait | .readPoll wait _ | .readTime wait _ => some wait
  | _ => none

/-- The phases in which the drive changes no sector. -/
def DrivePhase.Quiet : DrivePhase → Prop
  | .idle | .reading _ | .offering .. | .settling => True
  | _ => False

/-- Where the driver and the drive are, within a call that starts on a disk. -/
inductive Agrees (disk : Disk) : AtaPc → AtaCall → Sector → Drive → Prop where
  | ready (same : drive.disk = disk) (quiet : drive.phase.Quiet) : Agrees disk .ready call buf drive
  | readSetup (same : drive.disk = disk) (idle : drive.phase = .idle) (setUp : drive.SetUp lba done) (early : done < 6) :
      Agrees disk (.setup done) (.read lba buf) buf drive
  | bsy (waits : pc.wait = some .bsy) (same : drive.disk = disk)
      (phase : drive.phase = .reading (ataLba lba.toNat) ∨ drive.phase = .offering (ataReadSector disk lba.toNat) 0 ∨
        drive.phase = .idle) : Agrees disk pc (.read lba buf) buf drive
  | drq (waits : pc.wait = some .drq) (same : drive.disk = disk)
      (phase : drive.phase = .offering (ataReadSector disk lba.toNat) 0 ∨ drive.phase = .idle) :
      Agrees disk pc (.read lba buf) buf drive
  | readData (same : drive.disk = disk) (inside : i < 256) (phase : drive.phase = .offering (ataReadSector disk lba.toNat) i)
      (copied : ∀ position : Fin 512, position.val < 2 * i → buf position = ataReadSector disk lba.toNat position) :
      Agrees disk (.readData i) (.read lba old) buf drive
  | final (waits : pc.wait = some .final) (same : drive.disk = disk) (filled : buf = ataReadSector disk lba.toNat)
      (phase : drive.phase = .settling ∨ drive.phase = .idle) : Agrees disk pc (.read lba old) buf drive
  | writeReady (same : drive.disk = disk) (idle : drive.phase = .idle) : Agrees disk .writeReady (.write lba buf) buf drive
  | writeSetup (same : drive.disk = disk) (idle : drive.phase = .idle) (setUp : drive.SetUp lba done) (early : done < 6) :
      Agrees disk (.setup done) (.write lba buf) buf drive
  | writeDrq (same : drive.disk = disk)
      (phase : drive.phase = .preparing (ataLba lba.toNat) ∨ drive.phase = .accepting (ataLba lba.toNat) .zero 0 ∨
        drive.phase = .idle) : Agrees disk .writeDrq (.write lba buf) buf drive
  | writeData (same : drive.disk = disk) (inside : i < 256) (phase : drive.phase = .accepting (ataLba lba.toNat) sector i)
      (copied : ∀ position : Fin 512, position.val < 2 * i → sector position = buf position) :
      Agrees disk (.writeData i) (.write lba buf) buf drive
  | committing (same : drive.disk = disk) (phase : drive.phase = .committing (ataLba lba.toNat) buf) :
      Agrees disk .lastBsy (.write lba buf) buf drive
  | committed (written : drive.disk = ataWriteSector disk lba.toNat buf) (idle : drive.phase = .idle) :
      Agrees disk .lastBsy (.write lba buf) buf drive
  | flushCommand (same : drive.disk = disk) (idle : drive.phase = .idle) : Agrees disk .flushCommand .flush .zero drive
  | flushing (same : drive.disk = disk) (phase : drive.phase = .flushing ∨ drive.phase = .idle) :
      Agrees disk .lastBsy .flush .zero drive

/-- The state after some calls, and possibly within another one. -/
structure Ata.Inv (first : Disk) (st : Ata) (disk : Disk) : Prop where
  serves : Serves first st.returned disk
  agrees : Agrees disk st.pc st.call st.buf st.drive
  settled : st.pc = .ready → (∀ result ∈ st.returned.getLast?, result.timedOut = none) → st.drive.phase = .idle

namespace Agrees

variable {disk : Disk} {st : Ata}

theorem work {drive drive' : Drive} (agrees : Agrees disk pc call buf drive) (moved : drive.work = some drive') :
    Agrees disk pc call buf drive' := by
  obtain ⟨disk', count, low, mid, high, device, phase⟩ := drive
  cases agrees with
  | ready same quiet => cases phase <;> first | cases moved; done | cases quiet; done | (cases moved; exact .ready same trivial)
  | readSetup same idle setUp early => cases idle; cases moved
  | bsy waits same phase =>
    rcases phase with reads | offers | idle
    · cases reads
      cases moved
      exact .bsy waits same (.inr (.inl (by rw [← same]; rfl)))
    · cases offers
      cases moved
    · cases idle
      cases moved
  | drq waits same phase => rcases phase with offers | idle <;> [cases offers; cases idle] <;> cases moved
  | readData same inside phase copied => cases phase; cases moved
  | final waits same filled phase =>
    rcases phase with settles | idle
    · cases settles
      cases moved
      exact .final waits same filled (.inr rfl)
    · cases idle
      cases moved
  | writeReady same idle => cases idle; cases moved
  | writeSetup same idle setUp early => cases idle; cases moved
  | writeDrq same phase =>
    rcases phase with prepares | accepts | idle
    · cases prepares
      cases moved
      exact .writeDrq same (.inr (.inl rfl))
    · cases accepts
      cases moved
    · cases idle
      cases moved
  | writeData same inside phase copied => cases phase; cases moved
  | committing same phase =>
    cases phase
    cases moved
    exact .committed (by rw [ataWriteSector, ← same]) rfl
  | committed written idle => cases idle; cases moved
  | flushCommand same idle => cases idle; cases moved
  | flushing same phase =>
    rcases phase with flushes | idle
    · cases flushes
      cases moved
      exact .flushing same (.inr rfl)
    · cases idle
      cases moved

theorem between {drive : Drive} (agrees : Agrees disk .ready call buf drive) : drive.disk = disk := by
  cases agrees with
  | ready same quiet => exact same
  | bsy waits => cases waits
  | drq waits => cases waits
  | final waits => cases waits

/-- A command fails, but no write does behind its data. -/
theorem fail {drive drive' : Drive} (agrees : Agrees disk pc call buf drive) (moved : drive.fail = some drive')
    (stored : ∀ lba sector, drive.phase ≠ .committing lba sector) : Agrees disk pc call buf drive' := by
  obtain ⟨disk', count, low, mid, high, device, phase⟩ := drive
  cases agrees with
  | ready same quiet => cases phase <;> first | cases moved; done | cases quiet; done | (cases moved; exact .ready same trivial)
  | readSetup same idle setUp early => cases idle; cases moved
  | bsy waits same phase =>
    rcases phase with reads | offers | idle
    · cases reads
      cases moved
      exact .bsy waits same (.inr (.inr rfl))
    · cases offers
      cases moved
    · cases idle
      cases moved
  | drq waits same phase => rcases phase with offers | idle <;> [cases offers; cases idle] <;> cases moved
  | readData same inside phase copied => cases phase; cases moved
  | final waits same filled phase => rcases phase with settles | idle <;> [cases settles; cases idle] <;> cases moved
  | writeReady same idle => cases idle; cases moved
  | writeSetup same idle setUp early => cases idle; cases moved
  | writeDrq same phase =>
    rcases phase with prepares | accepts | idle
    · cases prepares
      cases moved
      exact .writeDrq same (.inr (.inr rfl))
    · cases accepts
      cases moved
    · cases idle
      cases moved
  | writeData same inside phase copied => cases phase; cases moved
  | committing same phase =>
    cases phase
    exact absurd rfl (stored _ _)
  | committed written idle => cases idle; cases moved
  | flushCommand same idle => cases idle; cases moved
  | flushing same phase =>
    rcases phase with flushes | idle
    · cases flushes
      cases moved
      exact .flushing same (.inr rfl)
    · cases idle
      cases moved

end Agrees

namespace Drive

variable {drive : Drive}

theorem status_idle (idle : drive.phase = .idle) : drive.status = 0x40 := by rw [status, idle]

theorem status_offering (offers : drive.phase = .offering sector sent) : drive.status = 0x48 := by rw [status, offers]

theorem status_accepting {number : Nat} (accepts : drive.phase = .accepting number sector got) : drive.status = 0x48 := by
  rw [status, accepts]

end Drive

/-- The accesses that are at least left to do. -/
def AtaPc.rank : AtaPc → Nat
  | .ready => 0
  | .lastBsy => 1
  | .flushCommand => 2
  | .readPoll .final _ => 2
  | .readTime .final _ => 3
  | .readStart .final => 4
  | .readData i | .writeData i => 5 + (256 - i)
  | .readPoll .drq _ | .writeDrq => 300
  | .readTime .drq _ => 301
  | .readStart .drq => 302
  | .readPoll .bsy _ => 303
  | .readTime .bsy _ => 304
  | .readStart .bsy => 305
  | .setup done => 306 + (6 - done)
  | .writeReady => 320

/-- The driver waits for the drive to give or take data. -/
def AtaPc.asks : AtaPc → Bool
  | .readStart wait | .readPoll wait _ | .readTime wait _ => wait.early
  | .writeDrq => true
  | _ => false

namespace Ata

/-- The driver waits for the data phase of a command that failed. -/
def Failed (st : Ata) : Prop := st.drive.phase = .idle ∧ st.pc.asks = true

/-- An access of the driver ends the call or stays within it, and brings its end nearer once the drive is done. -/
structure Advances (first : Disk) (st st' : Ata) : Prop where
  inv : ∃ disk, st'.Inv first disk
  within : st'.pc ≠ .ready ∧ st'.call = st.call ∧ st'.returned = st.returned ∨
    st'.pc = .ready ∧ ∃ result : AtaReturn, result.call = st.call ∧ st'.returned = st.returned ++ [result]
  nearer : st.drive.work = none → ¬st.Failed → st'.pc.rank < st.pc.rank ∧ ¬st'.Failed

namespace Inv

variable {first disk : Disk} {st : Ata}

theorem ret (inv : st.Inv first disk) {timedOut : Option ReadWait} {disk' : Disk} (busy : 0 < st.pc.rank)
    (next : disk' = diskSpec.next disk st.call) (fits : AtaReturn.Fits disk ⟨st.call, timedOut, st.buf⟩)
    (same : st.drive.disk = disk') (quiet : st.drive.phase.Quiet) (idle : timedOut = none → st.drive.phase = .idle) :
    Advances first st (st.ret timedOut) where
  inv := by
    refine ⟨disk', by rw [next]; exact inv.serves.concat fits, .ready same quiet, fun _ calm => idle ?_⟩
    exact calm ⟨st.call, timedOut, st.buf⟩ (by rw [Ata.ret, List.getLast?_concat]; rfl)
  within := .inr ⟨rfl, _, rfl, rfl⟩
  nearer _ _ := ⟨busy, fun fails => nomatch fails.2⟩

theorem move (inv : st.Inv first disk) {pc : AtaPc} {buf : Sector} {drive : Drive} (inside : pc ≠ .ready)
    (agrees : Agrees disk pc st.call buf drive)
    (nearer : st.drive.work = none → ¬st.Failed → pc.rank < st.pc.rank ∧ ¬Failed { st with pc, buf, drive }) :
    Advances first st { st with pc, buf, drive } where
  inv := ⟨disk, inv.serves, agrees, fun ready => absurd ready inside⟩
  within := .inl ⟨inside, rfl, rfl⟩
  nearer := nearer

/-- One of the six writes in front of a command: a register is set, or the command is given. -/
theorem setup (_ : st.Inv first disk) {lba : UInt32} {command : UInt8} (here : st.pc = .setup done)
    (writes : st.call.setup = ataSetup lba command) (idle : st.drive.phase = .idle) (setUp : st.drive.SetUp lba done)
    (early : done < 6) :
    (∃ drive, st.driver = some { st with drive, pc := .setup (done + 1) } ∧ drive.SetUp lba (done + 1) ∧
      drive.phase = .idle ∧ drive.disk = st.drive.disk ∧ done + 1 < 6) ∨
    st.drive.SetUp lba 5 ∧ st.driver =
      (st.drive.command command).map fun drive => { st with drive, pc := st.call.commanded } := by
  have write : (ataSetup lba command)[done]? = some (ataSetup lba command)[done] := List.getElem?_eq_getElem early
  rcases (by omega : done < 5 ∨ done = 5) with register | rfl
  · obtain ⟨drive, out, set, idle', same⟩ := setUp.next idle register command _ write
    refine .inl ⟨drive, ?_, set, idle', same, by omega⟩
    simp only [Ata.driver, here, writes, write, Option.bind_some, out, Option.map_some]
    rw [if_pos (by omega)]
  · refine .inr ⟨setUp, ?_⟩
    have out : st.drive.outb 0x1F7 command = st.drive.command command := by
      rw [Drive.outb, idle]
      rfl
    simp only [Ata.driver, here, writes, write, Option.bind_some]
    exact congrArg (Option.map _) out

/-- Within a wait of `ata_read_sector` the driver goes on, gives up or gets past it. -/
theorem waiting (inv : st.Inv first disk) {wait : ReadWait} (waits : st.pc.wait = some wait)
    (stays : ∀ pc : AtaPc, pc.wait = some wait → Agrees disk pc st.call st.buf st.drive)
    (reads : diskSpec.next disk st.call = disk) (fits : AtaReturn.Fits disk ⟨st.call, some wait, st.buf⟩)
    (same : st.drive.disk = disk) (quiet : st.drive.phase.Quiet)
    (stops : st.drive.work = none → ¬st.Failed → wait.goesOn st.drive.status = false)
    (past : ∀ start, st.pc = .readPoll wait start → wait.goesOn st.drive.status = false → Advances first st (st.waited wait)) :
    ∃ st', st.driver = some st' ∧ Advances first st st' := by
  obtain ⟨pc, call, buf, drive, ms, console, returned⟩ := st
  cases pc with
  | readStart wait =>
    cases waits
    refine ⟨_, rfl, inv.move nofun (stays _ rfl) fun _ sound => ⟨?_, fun fails => sound fails⟩⟩
    cases wait <;> simp [AtaPc.rank]
  | readPoll wait start =>
    cases waits
    by_cases leaves : wait.goesOn drive.status = false
    · exact ⟨_, congrArg some (if_neg (by rw [leaves]; nofun)), past start rfl leaves⟩
    · exact ⟨_, congrArg some (if_pos (Bool.eq_true_of_not_eq_false leaves)),
        inv.move nofun (stays _ rfl) fun still sound => absurd (stops still sound) leaves⟩
  | readTime wait start =>
    cases waits
    by_cases late : ms - start > 5000
    · exact ⟨_, congrArg some (if_pos late), inv.ret (by cases wait <;> simp [AtaPc.rank]) reads.symm fits same quiet nofun⟩
    · refine ⟨_, congrArg some (if_neg late), inv.move nofun (stays _ rfl) fun _ sound => ⟨?_, fun fails => sound fails⟩⟩
      cases wait <;> simp [AtaPc.rank]
  | _ => cases waits

/-- The driver comes to its next access: the drive says what that does, and both agree again. -/
theorem driver (inv : st.Inv first disk) (busy : st.pc ≠ .ready) : ∃ st', st.driver = some st' ∧ Advances first st st' := by
  obtain ⟨pc, call, buf, drive, ms, console, returned⟩ := st
  have agrees : Agrees disk pc call buf drive := inv.agrees
  cases agrees with
  | ready same quiet => exact absurd rfl busy
  | readSetup same idle setUp early =>
    rcases inv.setup rfl rfl idle setUp early with ⟨drive', moved, set, idle', disk', early'⟩ | ⟨ready, moved⟩
    · refine ⟨_, moved, inv.move (by rintro ⟨⟩) (.readSetup (disk'.trans same) idle' set early') fun _ _ => ⟨?_, fun fails => by cases fails.2⟩⟩
      simp only [AtaPc.rank]
      omega
    · have command : drive.command 0x20 = some { drive with phase := .reading drive.lba } := if_pos ⟨rfl, ready.addressed⟩
      rw [command] at moved
      refine ⟨_, moved, inv.move (by rintro ⟨⟩) (.bsy rfl same (.inl (by rw [ready.lba_eq]))) fun _ _ => ⟨?_, fun fails => by cases fails.1⟩⟩
      simp only [AtaPc.rank, AtaCall.commanded]
      omega
  | bsy waits same phase =>
    rename_i lba
    have quiet : drive.phase.Quiet := by rcases phase with reads | offers | idle <;> simp only [*] <;> trivial
    refine inv.waiting waits (fun _ waits => .bsy waits same phase) rfl rfl same quiet (fun still _ => ?_) fun start here stops => ?_
    · rcases phase with reads | offers | idle
      · rw [Drive.work, reads] at still
        cases still
      · rw [Drive.status_offering offers]
        decide
      · rw [Drive.status_idle idle]
        decide
    · cases here
      have past : Agrees disk (.readStart .drq) (.read lba buf) buf drive := by
        refine .drq rfl same ?_
        rcases phase with reads | done
        · have status : drive.status = 0x80 := by rw [Drive.status, reads]
          rw [status] at stops
          exact absurd stops (by decide)
        · exact done
      exact inv.move (by rintro ⟨⟩) past fun _ sound => ⟨by simp [AtaPc.rank], fun fails => sound ⟨fails.1, rfl⟩⟩
  | drq waits same phase =>
    have quiet : drive.phase.Quiet := by rcases phase with offers | idle <;> simp only [*] <;> trivial
    refine inv.waiting waits (fun _ waits => .drq waits same phase) rfl rfl same quiet (fun _ sound => ?_) fun start here stops => ?_
    · rcases phase with offers | idle
      · rw [Drive.status_offering offers]
        decide
      · refine absurd ⟨idle, ?_⟩ sound
        cases pc <;> cases waits <;> rfl
    · cases here
      rcases phase with offers | idle
      · exact inv.move (by rintro ⟨⟩) (.readData same (by decide) offers (fun _ below => absurd below (Nat.not_lt_zero _)))
          fun _ _ => ⟨by simp [AtaPc.rank], fun fails => by cases fails.2⟩
      · rw [Drive.status_idle idle] at stops
        exact absurd stops (by decide)
  | readData same inside phase copied =>
    rename_i i lba _
    have input : drive.inw = some ((ataReadSector disk lba.toNat).dataWord i,
        { drive with phase := if i + 1 < 256 then .offering (ataReadSector disk lba.toNat) (i + 1) else .settling }) := by
      rw [Drive.inw, phase]
    have further := Sector.storeWord_copies i copied
    refine ⟨_, congrArg (Option.map _) input, ?_⟩
    by_cases more : i + 1 < 256
    · simp only [if_pos more]
      refine inv.move (by rintro ⟨⟩) (.readData same more rfl further) fun _ _ => ⟨?_, fun fails => by cases fails.2⟩
      simp only [AtaPc.rank]
      omega
    · obtain rfl : i = 255 := by omega
      exact inv.move (by rintro ⟨⟩) (.final rfl same (Sector.copied_all further) (.inl rfl))
        fun _ _ => ⟨by simp [AtaPc.rank], fun fails => by cases fails.2⟩
  | final waits same filled phase =>
    have quiet : drive.phase.Quiet := by rcases phase with settles | idle <;> simp only [*] <;> trivial
    refine inv.waiting waits (fun _ waits => .final waits same filled phase) rfl filled same quiet (fun still _ => ?_)
      fun start here stops => ?_
    · rcases phase with settles | idle
      · rw [Drive.work, settles] at still
        cases still
      · rw [Drive.status_idle idle]
        decide
    · cases here
      rcases phase with settles | idle
      · have status : drive.status = 0x80 := by rw [Drive.status, settles]
        rw [status] at stops
        exact absurd stops (by decide)
      · exact inv.ret (by simp [AtaPc.rank]) rfl filled same quiet fun _ => idle
  | writeReady same idle =>
    have status := Drive.status_idle idle
    have free : ¬drive.status &&& 0x80 ≠ 0 := by rw [status]; decide
    have ready : drive.status &&& 0x40 ≠ 0 := by rw [status]; decide
    exact ⟨_, congrArg some ((if_neg free).trans (if_pos ready)), inv.move (by rintro ⟨⟩)
      (.writeSetup same idle (.none drive _) (by decide)) fun _ _ => ⟨by simp [AtaPc.rank], fun fails => by cases fails.2⟩⟩
  | writeSetup same idle setUp early =>
    rcases inv.setup rfl rfl idle setUp early with ⟨drive', moved, set, idle', disk', early'⟩ | ⟨ready, moved⟩
    · refine ⟨_, moved, inv.move (by rintro ⟨⟩) (.writeSetup (disk'.trans same) idle' set early') fun _ _ =>
        ⟨?_, fun fails => by cases fails.2⟩⟩
      simp only [AtaPc.rank]
      omega
    · have command : drive.command 0x30 = some { drive with phase := .preparing drive.lba } := by
        rw [Drive.command, if_neg (fun other => absurd other.1 (by decide)), if_pos ⟨rfl, ready.addressed⟩]
      rw [command] at moved
      refine ⟨_, moved, inv.move (by rintro ⟨⟩) (.writeDrq same (.inl (by rw [ready.lba_eq]))) fun _ _ =>
        ⟨?_, fun fails => by cases fails.1⟩⟩
      simp only [AtaPc.rank, AtaCall.commanded]
      omega
  | writeDrq same phase =>
    rcases phase with prepares | accepts | idle
    · have status : drive.status = 0x80 := by rw [Drive.status, prepares]
      refine ⟨_, congrArg some (if_pos (by rw [status]; decide)), inv.move (by rintro ⟨⟩) (.writeDrq same (.inl prepares)) fun still _ => ?_⟩
      rw [Drive.work, prepares] at still
      cases still
    · have status := Drive.status_accepting accepts
      have free : ¬drive.status &&& 0x80 ≠ 0 := by rw [status]; decide
      have asks : drive.status &&& 0x08 ≠ 0 := by rw [status]; decide
      exact ⟨_, congrArg some ((if_neg free).trans (if_pos asks)),
        inv.move (by rintro ⟨⟩) (.writeData same (by decide) accepts (fun _ below => absurd below (Nat.not_lt_zero _)))
          fun _ _ => ⟨by simp [AtaPc.rank], fun fails => by cases fails.2⟩⟩
    · have status := Drive.status_idle idle
      have free : ¬drive.status &&& 0x80 ≠ 0 := by rw [status]; decide
      have asksNot : ¬drive.status &&& 0x08 ≠ 0 := by rw [status]; decide
      exact ⟨_, congrArg some ((if_neg free).trans (if_neg asksNot)),
        inv.move (by rintro ⟨⟩) (.writeDrq same (.inr (.inr idle))) fun _ sound => absurd ⟨idle, rfl⟩ sound⟩
  | writeData same inside phase copied =>
    rename_i i sector lba
    have output : drive.outw (buf.dataWord i) = some { drive with
        phase := if i + 1 < 256 then .accepting (ataLba lba.toNat) (sector.storeWord i (buf.dataWord i)) (i + 1)
          else .committing (ataLba lba.toNat) (sector.storeWord i (buf.dataWord i)) } := by
      rw [Drive.outw, phase]
    have further := Sector.storeWord_copies i copied
    refine ⟨_, congrArg (Option.map _) output, ?_⟩
    by_cases more : i + 1 < 256
    · simp only [if_pos more]
      refine inv.move (by rintro ⟨⟩) (.writeData same more rfl further) fun _ _ => ⟨?_, fun fails => by cases fails.2⟩
      simp only [AtaPc.rank]
      omega
    · obtain rfl : i = 255 := by omega
      exact inv.move (by rintro ⟨⟩) (.committing same (by rw [if_neg (by decide), Sector.copied_all further]))
        fun _ _ => ⟨by simp [AtaPc.rank], fun fails => by cases fails.2⟩
  | committing same phase =>
    have status : drive.status = 0x80 := by rw [Drive.status, phase]
    refine ⟨_, congrArg some (if_pos (by rw [status]; decide)), inv.move (by rintro ⟨⟩) (.committing same phase) fun still _ => ?_⟩
    rw [Drive.work, phase] at still
    cases still
  | committed written idle =>
    have status := Drive.status_idle idle
    exact ⟨_, congrArg some (if_neg (by rw [status]; decide)),
      inv.ret (by simp [AtaPc.rank]) rfl rfl written (idle ▸ trivial) fun _ => idle⟩
  | flushCommand same idle =>
    have out : drive.outb 0x1F7 0xE7 = some { drive with phase := .flushing } := by
      rw [Drive.outb, idle]
      rfl
    exact ⟨_, congrArg (Option.map _) out, inv.move (by rintro ⟨⟩) (.flushing same (.inl rfl))
      fun _ _ => ⟨by simp [AtaPc.rank], fun fails => by cases fails.2⟩⟩
  | flushing same phase =>
    rcases phase with flushes | idle
    · have status : drive.status = 0x80 := by rw [Drive.status, flushes]
      refine ⟨_, congrArg some (if_pos (by rw [status]; decide)), inv.move (by rintro ⟨⟩) (.flushing same (.inl flushes)) fun still _ => ?_⟩
      rw [Drive.work, flushes] at still
      cases still
    · have status := Drive.status_idle idle
      exact ⟨_, congrArg some (if_neg (by rw [status]; decide)),
        inv.ret (by simp [AtaPc.rank]) rfl rfl same (idle ▸ trivial) fun _ => idle⟩

theorem drive (inv : st.Inv first disk) {drive' : Drive}
    (agrees : Agrees disk st.pc st.call st.buf st.drive → Agrees disk st.pc st.call st.buf drive')
    (moves : st.drive.phase ≠ .idle) : Ata.Inv first { st with drive := drive' } disk where
  serves := inv.serves
  agrees := agrees inv.agrees
  settled ready calm := absurd (inv.settled ready calm) moves

end Inv

end Ata

def AtaStep (st : Ata) (event : AtaEvent) (st' : Ata) : Prop := st.step event = some st'

/-- A call finds the drive idle, and no write fails behind its data. -/
def AtaOk (st : Ata) : AtaEvent → Prop
  | .call _ => st.drive.phase = .idle
  | .fail => ∀ lba sector, st.drive.phase ≠ .committing lba sector
  | _ => True

namespace Ata

theorem work_moves {drive drive' : Drive} (moved : drive.work = some drive') : drive.phase ≠ .idle := by
  intro idle
  rw [Drive.work, idle] at moved
  cases moved

theorem fail_moves {drive drive' : Drive} (moved : drive.fail = some drive') : drive.phase ≠ .idle := by
  intro idle
  rw [Drive.fail, idle] at moved
  cases moved

theorem Inv.step {first disk : Disk} {st : Ata} (inv : st.Inv first disk) (allowed : AtaOk st event)
    (step : AtaStep st event st') : ∃ disk', st'.Inv first disk' := by
  cases event with
  | call call =>
    rw [AtaStep, Ata.step] at step
    split at step
    · rename_i ready
      cases step
      have same : st.drive.disk = disk := by
        have agrees := inv.agrees
        rw [ready] at agrees
        exact agrees.between
      refine ⟨disk, inv.serves, ?_, ?_⟩
      · cases call with
        | read lba buf => exact .readSetup same allowed (.none st.drive lba) (by decide)
        | write lba buf => exact .writeReady same allowed
        | flush => exact .flushCommand same allowed
      · cases call <;> nofun
    · cases step
  | driver =>
    have busy : st.pc ≠ .ready := by
      intro ready
      rw [AtaStep, Ata.step, Ata.driver, ready] at step
      cases step
    obtain ⟨_, moved, advances⟩ := inv.driver busy
    cases moved.symm.trans step
    exact advances.inv
  | work =>
    obtain ⟨drive', moved, rfl⟩ := Option.map_eq_some_iff.mp step
    exact ⟨disk, inv.drive (fun agrees => agrees.work moved) (work_moves moved)⟩
  | fail =>
    obtain ⟨drive', moved, rfl⟩ := Option.map_eq_some_iff.mp step
    exact ⟨disk, inv.drive (fun agrees => agrees.fail moved allowed) (fail_moves moved)⟩
  | tick =>
    cases step
    exact ⟨disk, inv.serves, inv.agrees, inv.settled⟩

theorem Inv.start (drive : Drive) (ms : UInt64) : (Ata.start drive ms).Inv drive.disk drive.disk where
  serves := ⟨rfl, fun done result rest split => by cases done <;> cases split⟩
  agrees := .ready rfl trivial
  settled _ _ := rfl

theorem inv_run {drive : Drive} {ms : UInt64} (run : Run AtaStep AtaOk (Ata.start drive ms) events st) :
    ∃ disk, st.Inv drive.disk disk :=
  run.invariant (fun st => ∃ disk, st.Inv drive.disk disk) (fun _ _ _ ⟨_, inv⟩ allowed step => inv.step allowed step)
    ⟨_, Inv.start drive ms⟩

end Ata

theorem AtaPc.rank_le (pc : AtaPc) : pc.rank ≤ 320 := by
  fun_cases AtaPc.rank pc <;> omega

theorem AtaPc.rank_pos {pc : AtaPc} (busy : pc ≠ .ready) : 0 < pc.rank := by
  fun_cases AtaPc.rank pc <;> first | exact absurd rfl busy | omega

/-- The accesses that are left, and what the drive is at. -/
def Ata.left (st : Ata) : Nat := 2 * st.pc.rank + if st.drive.work = none then 0 else 1

theorem work_done {drive drive' : Drive} (moved : drive.work = some drive') : drive'.work = none := by
  obtain ⟨disk, count, low, mid, high, device, phase⟩ := drive
  cases phase <;> cases moved <;> rfl

/-- A drive that is asked for data does not come to rest without them. -/
theorem Agrees.work_sound {drive drive' : Drive} (agrees : Agrees disk pc call buf drive) (asks : pc.asks = true)
    (moved : drive.work = some drive') : drive'.phase ≠ .idle := by
  obtain ⟨disk', count, low, mid, high, device, phase⟩ := drive
  cases agrees with
  | bsy waits same phase =>
    rcases phase with reads | offers | idle <;> [cases reads; cases offers; cases idle] <;> cases moved
    nofun
  | drq waits same phase => rcases phase with offers | idle <;> [cases offers; cases idle] <;> cases moved
  | writeDrq same phase =>
    rcases phase with prepares | accepts | idle <;> [cases prepares; cases accepts; cases idle] <;> cases moved
    nofun
  | final waits same filled phase => cases pc <;> cases waits <;> cases asks
  | _ => cases asks

theorem Ata.Inv.returns {first disk : Disk} {st : Ata} (inv : st.Inv first disk) (within : st.left ≤ bound)
    (busy : st.pc ≠ .ready) (sound : ¬st.Failed) :
    ∃ more st', Run AtaStep AtaOk st more st' ∧ (∀ event ∈ more, event = .driver ∨ event = .work) ∧
      more.length ≤ bound ∧ st'.pc = .ready ∧
      ∃ result : AtaReturn, result.call = st.call ∧ st'.returned = st.returned ++ [result] := by
  induction bound generalizing st disk with
  | zero =>
    have positive := AtaPc.rank_pos busy
    rw [Ata.left] at within
    omega
  | succ bound ih =>
    cases working : st.drive.work with
    | some drive' =>
      have works : AtaStep st .work { st with drive := drive' } := congrArg (Option.map _) working
      have less : Ata.left { st with drive := drive' } ≤ bound := by
        rw [Ata.left, working, if_neg nofun] at within
        rw [Ata.left, work_done working, if_pos rfl]
        change 2 * st.pc.rank + 0 ≤ bound
        omega
      obtain ⟨more, st', run, only, short, ready, result⟩ := ih (inv.drive (fun agrees => agrees.work working) (Ata.work_moves working))
        less busy fun fails => inv.agrees.work_sound fails.2 working fails.1
      refine ⟨.work :: more, st', .next trivial works run, ?_, Nat.succ_le_succ short, ready, result⟩
      exact List.forall_mem_cons.mpr ⟨.inr rfl, only⟩
    | none =>
      obtain ⟨st1, moved, ⟨⟨disk', inv'⟩, within', nearer⟩⟩ := inv.driver busy
      obtain ⟨closer, sound'⟩ := nearer working sound
      have moves : AtaStep st .driver st1 := moved
      rcases within' with ⟨busy', call, returned⟩ | ⟨ready, result⟩
      · have less : st1.left ≤ bound := by
          rw [Ata.left, working, if_pos rfl] at within
          rw [Ata.left]
          split <;> omega
        obtain ⟨more, st', run, only, short, ready, result⟩ := ih inv' less busy' sound'
        rw [call, returned] at result
        refine ⟨.driver :: more, st', .next trivial moves run, ?_, Nat.succ_le_succ short, ready, result⟩
        exact List.forall_mem_cons.mpr ⟨.inl rfl, only⟩
      · refine ⟨[.driver], st1, .next trivial moves .done, ?_, ?_, ready, result⟩
        · exact List.forall_mem_singleton.mpr (.inl rfl)
        · exact Nat.succ_le_succ (Nat.zero_le bound)

/-- Whatever the drive, the timer and the driver do first, the driver never touches a register while the drive is at a
command; the calls that returned have read and written whole sectors, one call behind the other, except that a read
that gave up in front of the data left its buffer alone; between two calls the disk holds just what was written; and
only a read that gave up leaves the drive at work. -/
theorem ata_run {drive : Drive} (run : Run AtaStep AtaOk (Ata.start drive ms) events st) :
    (∀ done result rest, st.returned = done ++ result :: rest →
      result.Fits (diskSpec.after drive.disk (done.map AtaReturn.call))) ∧
    (st.pc = .ready → st.drive.disk = diskSpec.after drive.disk (st.returned.map AtaReturn.call)) ∧
    (st.pc = .ready → (∀ result ∈ st.returned.getLast?, result.timedOut = none) → st.drive.phase = .idle) ∧
    (st.pc ≠ .ready → ∃ st', st.driver = some st') := by
  obtain ⟨disk, inv⟩ := Ata.inv_run run
  refine ⟨inv.serves.fits, fun ready => ?_, inv.settled, fun busy => ?_⟩
  · have agrees := inv.agrees
    rw [ready] at agrees
    rw [agrees.between, inv.serves.disk_eq]
  · obtain ⟨st', moved, _⟩ := inv.driver busy
    exact ⟨st', moved⟩

/-- A drive without data. -/
def emptyDrive : Drive := ⟨fun _ => .zero, 0, 0, 0, 0, 0, .idle⟩

/-- Reading sector 5. -/
def readFive : Ata := { Ata.start emptyDrive 0 with pc := .setup 0, call := .read 5 .zero }

theorem readFive_called : Run AtaStep AtaOk (Ata.start emptyDrive 0) [.call (.read 5 .zero)] readFive :=
  .next rfl rfl .done

theorem ata_run_five : ∃ events st, Run AtaStep AtaOk (Ata.start emptyDrive 0) events st ∧
    st.returned.map AtaReturn.call = [.read 5 .zero] ∧ st.drive.disk = (fun _ => .zero) ∧
    ∀ result ∈ st.returned, result.buf = .zero := by
  obtain ⟨disk, inv⟩ := Ata.inv_run readFive_called
  obtain ⟨more, st, run, _, _, ready, result, call, returned⟩ := inv.returns (Nat.le_refl _) nofun fun fails => nomatch fails.2
  have whole := readFive_called.append run
  obtain ⟨fits, kept, _, _⟩ := ata_run whole
  have only : st.returned = [result] := returned
  have calls : st.returned.map AtaReturn.call = [.read 5 .zero] := by
    rw [only, List.map_singleton, call]
    rfl
  refine ⟨_, st, whole, calls, ?_, ?_⟩
  · rw [kept ready, calls]
    rfl
  · have right := fits [] result [] only
    rw [only]
    refine List.forall_mem_singleton.mpr ?_
    rw [AtaReturn.Fits, call] at right
    split at right <;> exact right

/-- A call whose command has not failed returns: the drive has one thing to do at a time, and whenever it is done
an access of the driver brings the end nearer. -/
theorem ata_returns {drive : Drive} (run : Run AtaStep AtaOk (Ata.start drive ms) events st) (busy : st.pc ≠ .ready)
    (sound : ¬st.Failed) :
    ∃ more st', Run AtaStep AtaOk st more st' ∧ (∀ event ∈ more, event = .driver ∨ event = .work) ∧
      more.length ≤ 641 ∧ st'.pc = .ready ∧
      ∃ result : AtaReturn, result.call = st.call ∧ st'.returned = st.returned ++ [result] := by
  obtain ⟨disk, inv⟩ := Ata.inv_run run
  refine inv.returns ?_ busy sound
  have low := st.pc.rank_le
  have most : st.left ≤ 2 * st.pc.rank + 1 := by
    rw [Ata.left]
    split <;> omega
  omega

/-- The read returns. -/
theorem ata_returns_five : ∃ more st', Run AtaStep AtaOk readFive more st' ∧
    (∀ event ∈ more, event = .driver ∨ event = .work) ∧ more.length ≤ 641 ∧ st'.pc = .ready ∧
    ∃ result : AtaReturn, result.call = .read 5 .zero ∧ st'.returned = [] ++ [result] :=
  ata_returns readFive_called nofun fun fails => nomatch fails.2

end LivlyOS.Drivers
