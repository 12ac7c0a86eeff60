import LivlyOS.Fs.Creation
import LivlyOS.Fs.MissingFile

namespace LivlyOS.Fs

open LivlyOS.Lib

/-- The entry of a file that is not a directory. -/
def Sector.slotRegular (sector : Sector) (slot : Nat) : Prop :=
  sector.slotEntry slot ∧ sector.slotDirectory slot = false

instance (sector : Sector) (slot : Nat) : Decidable (sector.slotRegular slot) :=
  inferInstanceAs (Decidable (_ ∧ _))

namespace FsCall

/-- New and renamed names are plain, data goes to existing regular files, and
only regular files are deleted. -/
def Permitted (st : FatState) : FsCall → Prop
  | .writeFile name _ | .createDir name => name.Plain
  | .renameFile name newName => name.Plain ∧ newName.Plain
  | .writeData name _ _ => ∃ cluster hit,
      Search st.boot st.disk (Sector.slotMatches name) st.cwdCluster (.found cluster hit) ∧
        hit.buf.slotRegular hit.slot
  | .deleteFile name => ∀ cluster, Reach st.boot st.disk st.cwdCluster cluster → ∀ slot < 16,
      (dirSectorOf st.boot st.disk cluster).slotMatches name slot = true →
      (dirSectorOf st.boot st.disk cluster).slotFree slot = false →
        (dirSectorOf st.boot st.disk cluster).slotRegular slot
  | .openDir _ | .cdBack | .cdRoot | .listDir | .readFile _ _ => True

/-- The slots a call acts on are in use, and the directory it moves to is one. -/
def Follows (st : FatState) : FsCall → Prop
  | .openDir name => ∀ cluster hit,
      Search st.boot st.disk (Sector.slotIsDirNamed name) st.cwdCluster (.found cluster hit) →
        hit.buf.slotFree hit.slot = false ∧ hit.buf.slotCluster hit.slot ≠ 0
  | .cdBack => st.cwdCluster = st.boot.rootCluster.toNat ∨
      (dirSectorOf st.boot st.disk st.cwdCluster).slotCluster 1 = 0 ∨
      ((dirSectorOf st.boot st.disk st.cwdCluster).slotFree 1 = false ∧
        (dirSectorOf st.boot st.disk st.cwdCluster).slotDirectory 1 = true)
  | .renameFile name _ => ∀ cluster hit,
      Search st.boot st.disk (Sector.slotMatches name) st.cwdCluster (.found cluster hit) →
        hit.buf.slotFree hit.slot = false
  | .deleteFile name => ∀ cluster hit,
      Search st.boot st.disk (Sector.slotMatches name) st.cwdCluster (.found cluster hit) →
        ∀ slot < 16, hit.buf.slotMatches name slot = true → hit.buf.slotFree slot = false
  | .writeFile _ _ | .createDir _ | .writeData _ _ _ | .cdRoot | .listDir | .readFile _ _ => True

/-- The call returns and `fat_alloc_cluster` did not return 0 in it. -/
def Allocates (st : FatState) (call : FsCall) (st' : FatState) : Prop :=
  ∃ fuel exit, call.run fuel st = some (exit, st') ∧ exit ≠ some (.created 0)

end FsCall

namespace Sound

theorem create {st : FatState} (sound : Sound st cat)
    (search : Search st.boot st.disk Sector.slotFree st.cwdCluster outcome)
    (fills : ∀ {st cat target current} {hit : Hit}, Sound st cat → cat.DirCluster target →
      hit.lba = st.boot.clusterLba target 0 → hit.buf = dirSectorOf st.boot st.disk target →
      hit.slot < 16 → hit.buf.slotFree hit.slot = true → cat.DirCluster current →
      (fill current hit st).1 ≠ .created 0 → ∃ cat', Sound (fill current hit st).2 cat')
    (placed : Placement fill st outcome result) (some : result.1 ≠ .created 0) :
    ∃ cat', Sound result.2 cat' := by
  cases placed with
  | @found mid cluster hit loaded =>
    obtain ⟨inDir, lba, buf, inside, free⟩ := sound.place search
    have soundMid := sound.loaded loaded
    obtain ⟨boot, _, _⟩ := loaded.kept
    rw [← boot] at lba buf
    rw [← loaded.disk] at buf
    exact fills soundMid inDir lba buf inside free inDir some
  | full loaded _ => exact ⟨cat, sound.loaded loaded⟩
  | @extended mid final n coherent kept step _ =>
    obtain ⟨reach, stop⟩ := search.absent_reach
    obtain ⟨cat', soundMid, inDir⟩ :=
      sound.extend (sound.tree.reach sound.cwd reach) stop coherent kept step
    have zeroed := step.zeroed 0 sound.wf.spc_pos
    rw [← kept.boot] at zeroed some ⊢
    exact fills soundMid inDir rfl zeroed.symm (Nat.succ_pos _) (Sector.zero_slotFree 0) inDir some

theorem writeFile (sound : Sound st cat) (plain : CString.Plain name)
    (finished : fatWriteFile fuel name ext st = some result) (some : result.1 ≠ .created 0) :
    ∃ cat', Sound result.2 cat' := by
  rcases fatWriteFile_spec sound.wf sound.lagging (sound.tree.walkable sound.cwd) finished with
    ⟨_, loaded⟩ | ⟨outcome, search, placed⟩
  · exact ⟨cat, sound.loaded loaded⟩
  · exact sound.create search (fun sound inDir lba buf inside free _ some =>
      sound.fillFile inDir lba buf inside free plain _ some) placed some

theorem createDir (sound : Sound st cat) (plain : CString.Plain name)
    (finished : fatCreateDir fuel name st = some result) (some : result.1 ≠ .created 0) :
    ∃ cat', Sound result.2 cat' := by
  rcases fatCreateDir_spec sound.wf sound.lagging (sound.tree.walkable sound.cwd) finished with
    ⟨_, loaded⟩ | ⟨outcome, search, placed⟩
  · exact ⟨cat, sound.loaded loaded⟩
  · exact sound.create search (fun sound inDir lba buf inside free parent some =>
      sound.fillDir inDir lba buf inside free plain parent some) placed some

/-- The search of an operation on one existing name. -/
theorem located (sound : Sound st cat) (finished : locate fuel name st = some (some hit, mid)) :
    Sound mid cat ∧ mid.boot = st.boot ∧ mid.disk = st.disk ∧ ∃ cluster,
      Search st.boot st.disk (Sector.slotMatches name) st.cwdCluster (.found cluster hit) := by
  obtain ⟨loaded, found⟩ := locate_found sound.lagging (sound.tree.walkable sound.cwd) finished
  exact ⟨sound.loaded loaded, loaded.kept.boot, loaded.disk, found⟩

theorem renameFile (sound : Sound st cat) (plain : CString.Plain name) (newPlain : CString.Plain newName)
    (used : ∀ cluster hit,
      Search st.boot st.disk (Sector.slotMatches name) st.cwdCluster (.found cluster hit) →
        hit.buf.slotFree hit.slot = false)
    (finished : fatRenameFile fuel name newName st = some st') : Sound st' cat := by
  rcases fatRenameFile_cases finished with ⟨mid, _, located, rfl⟩ | ⟨hit, mid, located, rfl⟩
  · exact (sound.loaded (locate_loaded sound.lagging.clean located)).printed _
  · obtain ⟨soundMid, boot, disk, cluster, search⟩ := sound.located located
    obtain ⟨inDir, lba, buf, inside, hits⟩ := sound.place search
    have inUse := used cluster hit search
    rw [← boot] at lba buf
    rw [← disk] at buf
    rw [lba]
    refine soundMid.rewrite inDir _ ?_
    intro slot _ slotUsed
    rw [← buf]
    exact .renamed plain newPlain inside hits inUse slotUsed

theorem deleteFile (sound : Sound st cat)
    (regular : ∀ cluster, Reach st.boot st.disk st.cwdCluster cluster → ∀ slot < 16,
      (dirSectorOf st.boot st.disk cluster).slotMatches name slot = true →
      (dirSectorOf st.boot st.disk cluster).slotFree slot = false →
        (dirSectorOf st.boot st.disk cluster).slotRegular slot)
    (used : ∀ cluster hit,
      Search st.boot st.disk (Sector.slotMatches name) st.cwdCluster (.found cluster hit) →
        ∀ slot < 16, hit.buf.slotMatches name slot = true → hit.buf.slotFree slot = false)
    (finished : fatDeleteFile fuel name st = some st') : ∃ cat', Sound st' cat' := by
  rcases fatDeleteFile_cases finished with ⟨mid, _, located, rfl⟩ | ⟨hit, mid, located, deleted⟩
  · exact ⟨cat, (sound.loaded (locate_loaded sound.lagging.clean located)).printed _⟩
  · obtain ⟨soundMid, boot, disk, cluster, search⟩ := sound.located located
    obtain ⟨inDir, lba, buf, _, _⟩ := sound.place search
    have inUse := used cluster hit search
    have reach := search.found_reach.1
    refine soundMid.deleteSlots inDir (by rw [boot]; exact lba) (List.range 16) List.nodup_range
      (fun slot member => List.mem_range.mp member) hit.buf (by rw [boot, disk]; exact buf) ?_ deleted
    intro slot member hits
    have inside := List.mem_range.mp member
    have free := inUse slot inside hits
    rw [buf] at hits free ⊢
    exact regular cluster reach slot inside hits free

/-- The writing loop replaces the chain of a file by one over its own clusters
and free ones. -/
theorem writeLoop (sound : Sound st cat) (member : file ∈ cat.files) (notDir : file ∉ cat.dirs)
    (finished : loop (writeTurn buf size) fuel ⟨file, 0, st⟩ = some st') : ∃ cat', Sound st' cat' := by
  have chain := sound.tree.chain file member
  obtain ⟨result, clusters', total, lagging, _, kept, rewrites⟩ := writeLoop_total sound.wf sound.lagging
    buf chain size 0 (freeClusters st.boot st.disk).card (Nat.le_refl _)
    (Nat.lt_succ_self _)
  cases loop_deterministic total finished
  obtain ⟨disk, _, _, _, nr, cached, dirty, console⟩ := st'
  obtain ⟨rfl, rfl, rfl⟩ := kept
  have outside : ∀ cluster, cat.DirCluster cluster → cluster ∉ cat.chains file := by
    rintro cluster ⟨dir, dirMember, inChain⟩ inFile
    have same := sound.tree.disjoint dir (sound.tree.dirs_files dir dirMember) file member cluster
      inChain inFile
    exact notDir (same ▸ dirMember)
  refine ⟨{ cat with chains := Function.update cat.chains file clusters' }, sound.wf, sound.single,
    lagging, ?_, sound.cwd.rechain (fun isDir => absurd isDir notDir)⟩
  refine sound.tree.rechain member rewrites.chain rewrites.within ?_ (fun isDir => absurd isDir notDir)
    (fun isDir => absurd isDir notDir) ?_
  · intro other otherMember different cluster inOther
    exact rewrites.entries cluster ((sound.tree.chain other otherMember).data cluster inOther).2
      (sound.tree.apart member otherMember different inOther) (sound.tree.used otherMember inOther)
  · intro cluster inDir
    have taken : fatEntry st.boot st.disk cluster ≠ 0 := by
      obtain ⟨dir, dirMember, inChain⟩ := inDir
      exact sound.tree.used (sound.tree.dirs_files dir dirMember) inChain
    exact rewrites.frame cluster (sound.tree.data inDir) (outside cluster inDir) taken 0 sound.wf.spc_pos

theorem writeData (sound : Sound st cat)
    (existing : ∃ cluster hit,
      Search st.boot st.disk (Sector.slotMatches name) st.cwdCluster (.found cluster hit) ∧
        hit.buf.slotRegular hit.slot)
    (finished : fatWriteData fuel name buf size st = some st') : ∃ cat', Sound st' cat' := by
  obtain ⟨target, place, present, entry, plain⟩ := existing
  rw [fatWriteData] at finished
  split at finished
  · cases finished
  · rename_i mid located
    obtain ⟨_, final, search⟩ := locate_absent sound.lagging (sound.tree.walkable sound.cwd) located
    cases search.unique present
  · rename_i hit mid located
    obtain ⟨soundMid, boot, disk, cluster', search⟩ := sound.located located
    cases search.unique present
    obtain ⟨inDir, lba, sector, inside, _⟩ := sound.place search
    rw [← boot] at lba sector
    rw [← disk] at sector
    rw [sector] at entry plain
    obtain ⟨member, _, isDir⟩ := soundMid.tree.entry target inDir _ inside entry
    have notDir : (dirSectorOf mid.boot mid.disk target).slotCluster place.slot ∉ cat.dirs := by
      intro owned
      rw [isDir.mp owned] at plain
      cases plain
    have sized := soundMid.rewrite inDir (place.buf.setSize place.slot size) (by
      intro slot _ used
      rw [← sector]
      exact .ofFields (fun index below => Sector.setSize_other _ (by omega)) used)
    dsimp only at finished
    rw [lba, sector] at finished
    rw [sector] at sized
    exact sized.writeLoop member notDir finished

end Sound

/-- On one sector per cluster `fat_open_dir` moves to the slot it finds. -/
theorem openInSectors_one (name : CString) (sektor : Nat) (st : FatState) :
    openInSectors name sektor 1 0 false st =
      match findInSectors (Sector.slotIsDirNamed name) st.disk sektor 1 0 with
      | some hit => (true, { st with
          cwdCluster := hit.buf.slotCluster hit.slot, cwdPath := strEnd name st.cwdPath })
      | none => (false, st) := by
  simp only [openInSectors, findInSectors]
  cases findInSector (Sector.slotIsDirNamed name) (ataReadSector st.disk (u32 (sektor + 0))) <;> rfl

theorem openLoop_search (single : st.boot.spc = 1) (lagging : Lagging st)
    (walkable : Walkable st.boot st.disk current)
    (finished : loop (openTurn name) fuel (current, st) = some (found, st')) :
    Loaded st st' ∨ ∃ cluster hit path,
      Search st.boot st.disk (Sector.slotIsDirNamed name) current (.found cluster hit) ∧
        Loaded { st with cwdCluster := hit.buf.slotCluster hit.slot, cwdPath := path } st' := by
  induction fuel generalizing st current with
  | zero => simp [loop] at finished
  | succ fuel ih =>
    have loaded := (Loaded.refl lagging.clean).next current
    rw [loop, openTurn] at finished
    by_cases ended : endOfChain ≤ current
    · simp only [ended, ↓reduceIte, Option.some.injEq, Prod.mk.injEq] at finished
      obtain ⟨_, rfl⟩ := finished
      exact .inl (.refl lagging.clean)
    · simp only [ended, ↓reduceIte, single, openInSectors_one] at finished
      cases here : findInSectors (Sector.slotIsDirNamed name) st.disk (st.boot.clusterSector current) 1 0 with
      | some hit =>
        simp only [here, ↓reduceIte, Option.some.injEq, Prod.mk.injEq] at finished
        obtain ⟨_, rfl⟩ := finished
        refine .inr ⟨current, hit, strEnd name st.cwdPath, .here (by rw [single]; exact here), ?_⟩
        exact Loaded.next (.refl (by exact lagging.clean)) current
      | none =>
        simp only [here, Bool.false_eq_true, ↓reduceIte] at finished
        have missing : findInSectors (Sector.slotIsDirNamed name) st.disk
            (st.boot.clusterSector current) st.boot.spc 0 = none := by
          rw [single]
          exact here
        have follow := walkable.follow lagging
        generalize fatNextCluster current st = link at finished follow loaded
        obtain ⟨successor, ⟨_, _, _, _, nr, cached, dirty, console⟩⟩ := link
        have lagging' := lagging.loaded loaded
        have before := loaded
        obtain ⟨⟨rfl, rfl, rfl⟩, rfl, -, -⟩ := loaded
        rcases follow with ⟨stopped, _⟩ | ⟨_, step⟩
        · cases fuel with
          | zero => simp [loop] at finished
          | succ fuel =>
            simp only at stopped
            simp only [loop, openTurn, stopped, ↓reduceIte, Option.some.injEq, Prod.mk.injEq] at finished
            obtain ⟨_, rfl⟩ := finished
            exact .inl before
        · rcases ih (by exact single) lagging' (by exact walkable.next step) finished with
            after | ⟨cluster, hit, path, search, after⟩
          · exact .inl (before.trans after)
          · exact .inr ⟨cluster, hit, path, .next missing step search, (before.moved _ _).trans after⟩

namespace Sound

theorem target (sound : Sound st cat) (inDir : cat.DirCluster cluster) (inside : slot < 16)
    (used : (dirSectorOf st.boot st.disk cluster).slotFree slot = false)
    (directory : (dirSectorOf st.boot st.disk cluster).slotDirectory slot = true) :
    (dirSectorOf st.boot st.disk cluster).slotCluster slot = 0 ∨
      cat.DirCluster ((dirSectorOf st.boot st.disk cluster).slotCluster slot) := by
  cases dot : (dirSectorOf st.boot st.disk cluster).slotDot slot with
  | true => exact sound.tree.link cluster inDir slot inside ⟨used, dot, directory⟩
  | false =>
    obtain ⟨file, _, isDir⟩ := sound.tree.entry cluster inDir slot inside ⟨used, dot⟩
    exact .inr ⟨_, isDir.mpr directory, (sound.tree.chain _ file).chain.first_mem⟩

theorem openDir (sound : Sound st cat)
    (follows : ∀ cluster hit,
      Search st.boot st.disk (Sector.slotIsDirNamed name) st.cwdCluster (.found cluster hit) →
        hit.buf.slotFree hit.slot = false ∧ hit.buf.slotCluster hit.slot ≠ 0)
    (finished : fatOpenDir fuel name st = some st') : Sound st' cat := by
  have opened : ∀ result, loop (openTurn name) fuel (st.cwdCluster, st) = some result →
      Sound result.2 cat := by
    rintro ⟨found, mid⟩ looped
    rcases openLoop_search sound.single sound.lagging (sound.tree.walkable sound.cwd) looped with
      loaded | ⟨cluster, hit, path, search, loaded⟩
    · exact sound.loaded loaded
    · obtain ⟨inDir, _, buf, inside, wanted⟩ := sound.place search
      obtain ⟨used, notZero⟩ := follows cluster hit search
      have directory : hit.buf.slotDirectory hit.slot = true := by
        rw [Sector.slotIsDirNamed, Bool.and_eq_true, decide_eq_true_eq] at wanted
        rw [Sector.slotDirectory, wanted.1]
        rfl
      rw [buf] at used directory
      have target := sound.target inDir inside used directory
      rw [← buf] at target
      exact (sound.moved (target.resolve_left notZero) path).loaded loaded
  obtain ⟨_, mid, looped, rfl | ⟨_, rfl⟩⟩ := fatOpenDir_cases finished
  · exact opened _ looped
  · exact (opened _ looped).printed _

theorem root (sound : Sound st cat) : cat.DirCluster st.boot.rootCluster.toNat :=
  ⟨_, sound.tree.root,
    (sound.tree.chain _ (sound.tree.dirs_files _ sound.tree.root)).chain.first_mem⟩

theorem cdBack (sound : Sound st cat)
    (follows : st.cwdCluster = st.boot.rootCluster.toNat ∨
      (dirSectorOf st.boot st.disk st.cwdCluster).slotCluster 1 = 0 ∨
      ((dirSectorOf st.boot st.disk st.cwdCluster).slotFree 1 = false ∧
        (dirSectorOf st.boot st.disk st.cwdCluster).slotDirectory 1 = true))
    (finished : fatCdBack fuel st = some st') : Sound st' cat := by
  rcases fatCdBack_cases finished with ⟨_, rfl⟩ | ⟨below, parent, path, link, rfl⟩
  · exact sound.printed _
  · apply sound.moved
    rw [← FAT32BootSector.clusterLba_zero] at link
    subst link
    have entry := follows.resolve_left below
    rw [dirSectorOf, clusterData] at entry
    split
    · exact sound.root
    · rename_i notZero
      obtain ⟨used, directory⟩ := entry.resolve_left notZero
      exact (sound.target sound.cwd (by decide) used directory).resolve_left notZero

end Sound

theorem FsCall.sound (call : FsCall) (sound : Sound st cat) (permitted : call.Permitted st)
    (follows : call.Follows st) (allocates : FsCall.Allocates st call st') : ∃ cat', Sound st' cat' := by
  obtain ⟨fuel, exit, returned, some⟩ := allocates
  cases FsCall.run_cases returned with
  | writeFile finished =>
    exact sound.writeFile permitted finished (fun zero => some (congrArg Option.some zero))
  | createDir finished =>
    exact sound.createDir permitted finished (fun zero => some (congrArg Option.some zero))
  | openDir finished =>
    exact ⟨cat, sound.openDir follows finished⟩
  | cdBack finished =>
    exact ⟨cat, sound.cdBack follows finished⟩
  | cdRoot =>
    exact ⟨cat, sound.moved sound.root _⟩
  | listDir finished =>
    exact ⟨cat, sound.loaded (fatListDir_loaded sound.lagging.clean finished)⟩
  | renameFile finished =>
    exact ⟨cat, sound.renameFile permitted.1 permitted.2 follows finished⟩
  | deleteFile finished =>
    exact sound.deleteFile permitted follows finished
  | readFile finished =>
    exact ⟨cat, sound.loaded (fatReadFile_loaded sound.lagging.clean finished)⟩
  | writeData finished =>
    exact sound.writeData permitted finished

/-- A mounted volume without cross-links is accounted for. -/
theorem mounted_sound (disk : Disk) (wf : (mounted disk).boot.WellFormed)
    (single : (mounted disk).boot.spc = 1) (intact : Intact (mounted disk).boot (mounted disk).disk)
    (linked : Linked (mounted disk).boot (mounted disk).disk) : ∃ cat, Sound (mounted disk) cat := by
  obtain ⟨cat, tree⟩ := intact.tree linked
  refine ⟨cat, wf, single, (mounted_coherent disk).lagging wf.layout, tree, _, tree.root, ?_⟩
  exact (tree.chain _ (tree.dirs_files _ tree.root)).chain.first_mem

/-- Chains stay terminated and apart in every run whose calls meet the conditions. -/
theorem intact_run (disk : Disk) (wf : (mounted disk).boot.WellFormed)
    (single : (mounted disk).boot.spc = 1) (intact : Intact (mounted disk).boot (mounted disk).disk)
    (linked : Linked (mounted disk).boot (mounted disk).disk)
    (run : Run FsCall.Allocates (fun st call => call.Permitted st ∧ call.Follows st)
      (mounted disk) calls st) : Intact st.boot st.disk := by
  have kept : ∀ st call st', (∃ cat, Sound st cat) → call.Permitted st ∧ call.Follows st →
      FsCall.Allocates st call st' → ∃ cat, Sound st' cat := by
    rintro st call st' ⟨cat, sound⟩ ⟨permitted, follows⟩ allocates
    exact call.sound sound permitted follows allocates
  obtain ⟨cat, sound⟩ := run.invariant (fun st => ∃ cat, Sound st cat) kept
    (mounted_sound disk wf single intact linked)
  exact sound.tree.intact

/-- Forty clusters of one sector each, one FAT of one sector. -/
def wideBoot : FAT32BootSector := { sampleBoot with totalSectors32 := 42 }

/-- A directory sector with files of one letter, one cluster and 512 bytes. -/
def filesSector (files : List (UInt8 × UInt8)) : Sector :=
  Sector.ofBytes (fun position =>
    match files[position / 32]? with
    | some (letter, cluster) =>
      if position % 32 = 0 then letter
      else if position % 32 ≤ 11 then 0x20
      else if position % 32 = 26 then cluster
      else if position % 32 = 29 then 2
      else 0
    | none => 0)

/-- The root directory fills cluster 2 and has two more entries in cluster 3: `G`
in cluster 6 and `F` in cluster 5, whose data looks like a directory with a
file `Z` in cluster 6. -/
def crossVolume : Disk :=
  image wideBoot
    (fun cluster => if cluster = 2 then 3 else if cluster = 4 ∨ 26 ≤ cluster then 0 else 0x0FFFFFFF)
    (fun cluster _ =>
      if cluster = 2 then filesSector ((List.range 16).map (fun slot =>
        (UInt8.ofNat (0x61 + slot), UInt8.ofNat (10 + slot))))
      else if cluster = 3 then filesSector [(0x47, 6), (0x46, 5)]
      else if cluster = 5 then filesSector [(0x5A, 6)]
      else Sector.zero)

def crossCatalog : Catalog where
  files := fun file => file = 2 ∨ file = 5 ∨ file = 6 ∨ (10 ≤ file ∧ file < 26)
  dirs := fun dir => dir = 2
  chains := fun file => if file = 2 then [2, 3] else [file]

theorem crossVolume_slots : ∀ cluster, crossCatalog.DirCluster cluster → ∀ slot < 16,
    (dirSectorOf wideBoot crossVolume cluster).slotFree slot = false →
      (dirSectorOf wideBoot crossVolume cluster).slotDirectory slot = false ∧
      (dirSectorOf wideBoot crossVolume cluster).slotCluster slot =
        (if cluster = 2 then 10 + slot else 6 - slot) ∧
      (cluster = 2 ∨ (cluster = 3 ∧ slot < 2)) := by
  rintro cluster ⟨dir, rfl, inChain⟩
  have both : cluster = 2 ∨ cluster = 3 := by simpa [crossCatalog] using inChain
  rcases both with rfl | rfl <;> decide +kernel

theorem wideBoot_wellFormed : wideBoot.WellFormed :=
  ⟨by decide, by decide, by decide, by decide, by decide⟩

theorem crossVolume_tree : Tree wideBoot crossVolume crossCatalog := by
  have wf := wideBoot_wellFormed
  have entries : ∀ cluster < 42, fatEntry wideBoot crossVolume cluster =
      if cluster = 2 then 3 else if cluster = 4 ∨ 26 ≤ cluster then 0 else 0x0FFFFFFF := by
    intro cluster inRange
    refine fatEntry_image wf (by decide) _ _ inRange ?_
    split
    · decide
    · split <;> decide
  have owned : ∀ file ∈ crossCatalog.files, ∀ cluster ∈ crossCatalog.chains file,
      cluster = file ∨ (file = 2 ∧ cluster = 3) := by
    intro file _ cluster inChain
    rw [crossCatalog] at inChain
    dsimp only at inChain
    split at inChain <;> simp at inChain <;> omega
  have used : ∀ cluster slot, (dirSectorOf wideBoot crossVolume cluster).slotEntry slot →
      (dirSectorOf wideBoot crossVolume cluster).slotFree slot = false := fun _ _ entry => entry.1
  refine ⟨rfl, ?_, ?_, ?_, ?_, ?_, ?_⟩
  · rintro dir rfl
    exact .inl rfl
  · rintro file member
    by_cases root : file = 2
    · subst root
      refine ⟨.link (nextOf_link (entries 2 (by decide)) (by decide))
        (.last (nextOf_last (entries 3 (by decide)))), ?_⟩
      decide
    · have chains : crossCatalog.chains file = [file] := if_neg root
      have place : file = 5 ∨ file = 6 ∨ (10 ≤ file ∧ file < 26) := member.resolve_left root
      rw [chains]
      refine ⟨.last (nextOf_last ?_), ?_⟩
      · rw [entries file (by omega), if_neg root, if_neg (by omega)]
      · intro cluster present
        rw [List.mem_singleton.mp present]
        have bound : wideBoot.totalClusters = 40 := by decide
        exact ⟨by omega, by omega⟩
  · intro file member other otherMember cluster inFile inOther
    have left := owned file member cluster inFile
    have right := owned other otherMember cluster inOther
    have fileCases : file = 2 ∨ file = 5 ∨ file = 6 ∨ (10 ≤ file ∧ file < 26) := member
    have otherCases : other = 2 ∨ other = 5 ∨ other = 6 ∨ (10 ≤ other ∧ other < 26) := otherMember
    omega
  · intro cluster inDir slot inside entry
    obtain ⟨plain, target, place⟩ := crossVolume_slots cluster inDir slot inside entry.1
    rw [target, plain]
    have low : wideBoot.rootCluster.toNat = 2 := by decide
    generalize value : (if cluster = 2 then 10 + slot else 6 - slot) = first
    have range : first = 5 ∨ first = 6 ∨ (10 ≤ first ∧ first < 26) := by
      rw [← value]
      split <;> omega
    refine ⟨.inr range, by omega, ?_, nofun⟩
    intro (root : first = 2)
    omega
  · intro cluster inDir slot inside cluster' inDir' slot' inside' entry entry' same
    obtain ⟨_, target, place⟩ := crossVolume_slots cluster inDir slot inside entry.1
    obtain ⟨_, target', place'⟩ := crossVolume_slots cluster' inDir' slot' inside' entry'.1
    rw [target, target'] at same
    split at same <;> split at same <;> omega
  · rintro cluster inDir slot inside ⟨inUse, _, directory⟩
    rw [(crossVolume_slots cluster inDir slot inside inUse).1] at directory
    cases directory

theorem crossVolume_linked : Linked wideBoot crossVolume := by
  rintro cluster live slot inside ⟨inUse, _, directory⟩
  have inDir := crossVolume_tree.liveCluster live
  rw [(crossVolume_slots cluster inDir slot inside inUse).1] at directory
  cases directory

theorem mounted_crossVolume :
    (mounted crossVolume).boot = wideBoot ∧ (mounted crossVolume).disk = crossVolume := by
  obtain ⟨boot, _, disk⟩ := mounted_image wideBoot _ _
  exact ⟨boot, disk⟩

theorem intact_run_crossVolume : ∃ st,
    Run FsCall.Allocates (fun st call => call.Permitted st ∧ call.Follows st) (mounted crossVolume)
      [.createDir [0x53], .cdRoot, .cdBack] st ∧ Intact st.boot st.disk := by
  obtain ⟨boot, disk⟩ := mounted_crossVolume
  obtain ⟨⟨exit, made⟩, created, exits⟩ := Option.map_eq_some_iff.mp (by decide +kernel :
    ((FsCall.createDir [0x53]).run 4 (mounted crossVolume)).map (fun result =>
      decide (result.1 ≠ some (.created 0))) = some true)
  have back : FsCall.cdBack.run 0 (fatCdRoot made) =
      some (none, (fatCdRoot made).kprintf "Bereits im root Verzeichnis\n") :=
    congrArg (Option.map _) (if_pos rfl)
  have plain : CString.Plain [0x53] := by decide
  have run : Run FsCall.Allocates (fun st call => call.Permitted st ∧ call.Follows st)
      (mounted crossVolume) [.createDir [0x53], .cdRoot, .cdBack] _ :=
    .next ⟨plain, trivial⟩ ⟨4, exit, created, of_decide_eq_true exits⟩
      (.next ⟨trivial, trivial⟩ ⟨0, none, rfl, nofun⟩
        (.next ⟨trivial, .inl rfl⟩ ⟨0, none, back, nofun⟩ .done))
  exact ⟨_, run, intact_run crossVolume (by rw [boot]; exact wideBoot_wellFormed) (by rw [boot]; rfl)
    (by rw [boot, disk]; exact crossVolume_tree.intact) (by rw [boot, disk]; exact crossVolume_linked) run⟩

/-- The new directory `S` gets the second cluster of the root directory as its
parent. From there `fat_cd_back` takes the first cluster of `F` for a directory,
and deleting the `Z` in the data of `F` frees the cluster of `G`. -/
theorem fatDeleteFile_crossVolume :
    wideBoot.WellFormed ∧ wideBoot.spc = 1 ∧ (mounted crossVolume).boot = wideBoot ∧
      Intact wideBoot (mounted crossVolume).disk ∧ Linked wideBoot (mounted crossVolume).disk ∧
      ∃ st, Run FsCall.Allocates (fun st call => call.Permitted st) (mounted crossVolume)
          [.createDir [0x53], .openDir [0x53], .cdBack, .cdBack, .deleteFile [0x5A]] st ∧
        ¬ Intact st.boot st.disk := by
  obtain ⟨boot, disk⟩ := mounted_crossVolume
  refine ⟨wideBoot_wellFormed, rfl, boot, by rw [disk]; exact crossVolume_tree.intact,
    by rw [disk]; exact crossVolume_linked, ?_⟩
  have trace : ((FsCall.createDir [0x53]).run 4 (mounted crossVolume)).bind (fun made =>
      ((FsCall.openDir [0x53]).run 4 made.2).bind (fun opened =>
      (FsCall.cdBack.run 4 opened.2).bind (fun parent =>
      (FsCall.cdBack.run 4 parent.2).bind (fun file =>
      ((FsCall.deleteFile [0x5A]).run 4 file.2).map (fun last =>
        decide (made.1 = some (.created 4) ∧ opened.1 = none ∧ parent.1 = none ∧ file.1 = none ∧
          last.1 = none ∧ file.2.cwdCluster = 5 ∧
          fatEntry file.2.boot file.2.disk 5 = 0x0FFFFFFF ∧
          (∀ slot < 16, (dirSectorOf file.2.boot file.2.disk 5).slotMatches [0x5A] slot = true →
            (dirSectorOf file.2.boot file.2.disk 5).slotRegular slot) ∧
          last.2.boot = wideBoot ∧ fatEntry wideBoot last.2.disk 2 = 3 ∧
          fatEntry wideBoot last.2.disk 3 = 0x0FFFFFFF ∧ fatEntry wideBoot last.2.disk 6 = 0 ∧
          (dirSectorOf wideBoot last.2.disk 3).slotEntry 0 ∧
          (dirSectorOf wideBoot last.2.disk 3).slotCluster 0 = 6)))))) = some true := by
    decide +kernel
  obtain ⟨⟨exit, made⟩, created, trace⟩ := Option.bind_eq_some_iff.mp trace
  obtain ⟨⟨exit₁, opened⟩, openedRun, trace⟩ := Option.bind_eq_some_iff.mp trace
  obtain ⟨⟨exit₂, parent⟩, parentRun, trace⟩ := Option.bind_eq_some_iff.mp trace
  obtain ⟨⟨exit₃, file⟩, fileRun, trace⟩ := Option.bind_eq_some_iff.mp trace
  obtain ⟨⟨exit₄, last⟩, lastRun, trace⟩ := Option.map_eq_some_iff.mp trace
  obtain ⟨rfl, rfl, rfl, rfl, rfl, cwd, stop, regular, boot, root, second, freed, entry, target⟩ :=
    of_decide_eq_true trace
  have plain : CString.Plain [0x53] := by decide
  have deletes : FsCall.Permitted file (.deleteFile [0x5A]) := by
    intro cluster reach slot inside hits _
    rw [cwd] at reach
    cases reach.cases_head with
    | inl same =>
      subst same
      exact regular slot inside hits
    | inr step =>
      obtain ⟨_, link, _⟩ := step
      rw [nextOf_last stop] at link
      cases link
  refine ⟨last, .next plain ⟨4, _, created, by simp⟩ (.next trivial ⟨4, none, openedRun, nofun⟩
    (.next trivial ⟨4, none, parentRun, nofun⟩ (.next trivial ⟨4, none, fileRun, nofun⟩
      (.next deletes ⟨4, none, lastRun, nofun⟩ .done)))), ?_⟩
  intro intact
  rw [boot] at intact
  have chain : FatChain wideBoot last.disk 2 [2, 3] :=
    ⟨.link (nextOf_link root (by decide)) (.last (nextOf_last second)), by decide⟩
  have live : Owner.Live wideBoot last.disk (.entry 3 0) :=
    .entry .root trivial chain (by decide) (by decide) entry
  obtain ⟨clusters, owned⟩ := intact.chain _ live
  rw [Owner.first, target] at owned
  exact owned.entry_ne_zero owned.chain.first_mem freed

end LivlyOS.Fs
