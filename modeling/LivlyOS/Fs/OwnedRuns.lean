import LivlyOS.Fs.Owners

namespace LivlyOS.Fs

open LivlyOS.Lib

/-- The state between two calls on a volume that the catalog accounts for. -/
structure Owned (st : FatState) (cat : Catalog) : Prop where
  wf : st.boot.WellFormed
  lagging : Lagging st
  owners : Owners st.boot st.disk cat
  cwd : cat.DirCluster st.cwdCluster

namespace Owned

theorem loaded (owned : Owned st cat) (loaded : Loaded st st') : Owned st' cat := by
  have lagging := owned.lagging.loaded loaded
  obtain ⟨disk, _, _, _, nr, cached, dirty, console⟩ := st'
  obtain ⟨⟨rfl, rfl, rfl⟩, rfl, -, -⟩ := loaded
  exact ⟨owned.wf, lagging, owned.owners, owned.cwd⟩

theorem moved (owned : Owned st cat) (inDir : cat.DirCluster target) (path : Bytes) :
    Owned { st with cwdCluster := target, cwdPath := path } cat :=
  ⟨owned.wf, ⟨owned.lagging.clean, owned.lagging.entries⟩, owned.owners, inDir⟩

theorem printed (owned : Owned st cat) (console : List String) : Owned { st with console := console } cat :=
  ⟨owned.wf, ⟨owned.lagging.clean, owned.lagging.entries⟩, owned.owners, owned.cwd⟩

/-- The current directory from the current cluster on. -/
theorem directory (owned : Owned st cat) : ∃ home ∈ cat.dirs, st.cwdCluster ∈ cat.chains home ∧
    ∃ dirs, FatChain st.boot st.disk st.cwdCluster dirs ∧ ∀ cluster ∈ dirs, cluster ∈ cat.chains home := by
  obtain ⟨home, known, inChain⟩ := owned.cwd
  obtain ⟨before, after, whole, tail⟩ :=
    (owned.owners.apart.chain home (owned.owners.dirs_files known)).suffix inChain
  refine ⟨home, known, inChain, after, tail, fun cluster member => ?_⟩
  rw [whole]
  exact List.mem_append_right before member

theorem target (owned : Owned st cat) (known : home ∈ cat.dirs) {place : Place}
    (inside : place.In st.boot (cat.chains home)) (used : place.Used st.boot st.disk)
    (isDir : place.Directory st.boot st.disk) (refers : place.target st.boot st.disk ≠ 0) :
    cat.DirCluster (place.target st.boot st.disk) := by
  have owners := owned.owners
  by_cases link : place.Link st.boot cat.dirs
  · obtain ⟨cluster, s, slot⟩ := place
    obtain ⟨member, below, rfl, first⟩ := link
    rcases (owners.link cluster member below slot first).leads with zero | ⟨parent, parentMember, inChain, _⟩
    · exact absurd zero refers
    · exact ⟨parent, parentMember, inChain⟩
  · have member := owners.directory home place ⟨known, inside, used, link, refers⟩ isDir
    exact ⟨_, member, owners.apart.first_mem (owners.dirs_files member)⟩

end Owned

/-- Behind its first sector the cluster holds no entries. -/
def CleanBehind (boot : FAT32BootSector) (disk : Disk) (n : Nat) : Prop :=
  ∀ t < boot.spc, t ≠ 0 → ∀ slot < 16, (clusterData boot disk n t).slotFree slot = true

/-- The calls of `mkdir`, `cd` and `create`, with free clusters that can become directories,
and no way into a directory by a deleted slot. -/
def FsCall.Orderly (st : FatState) : FsCall → Prop
  | .writeFile _ _ | .cdRoot => True
  | .createDir name => ∀ dirs, FatChain st.boot st.disk st.cwdCluster dirs →
      dirs.findSome? (dirDuplicateIn st.boot st.disk name) ≠ some true →
        DirRoom st dirs ∧ ∀ n, MayReserve st dirs n → CleanBehind st.boot st.disk n
  | .openDir name => ∀ dirs, FatChain st.boot st.disk st.cwdCluster dirs → ∀ cluster hit,
      firstPlace st.boot st.disk (Sector.slotIsDirNamed name) dirs = some (cluster, hit) →
      ∀ t < st.boot.spc, ∀ slot,
        findInSector (Sector.slotIsDirNamed name) (clusterData st.boot st.disk cluster t) = some slot →
          (clusterData st.boot st.disk cluster t).slotFree slot = false ∧
            (clusterData st.boot st.disk cluster t).slotCluster slot ≠ 0
  | .cdBack => st.cwdCluster = st.boot.rootCluster.toNat ∨
      (clusterData st.boot st.disk st.cwdCluster 0).slotCluster 1 = 0 ∨
      ((clusterData st.boot st.disk st.cwdCluster 0).slotFree 1 = false ∧
        (clusterData st.boot st.disk st.cwdCluster 0).slotDirectory 1 = true)
  | _ => False

namespace Owned

theorem created (owned : Owned st cat) (directory : FatChain st.boot st.disk st.cwdCluster dirs)
    (created : CreatedIn st st' dirs dirs' name ext attributes n owner s slot)
    (made : n ≠ 0 → attributes &&& 0x10 ≠ 0 → NewDirectory st.boot st'.disk n owner) :
    ∃ cat', Owned st' cat' := by
  obtain ⟨home, known, inChain⟩ := owned.cwd
  obtain ⟨cat', grows, owners⟩ := created.entry.owned owned.owners known inChain directory owned.wf made
  have boot := created.kept.boot
  refine ⟨cat', by rw [boot]; exact owned.wf, created.lagging, by rw [boot]; exact owners, ?_⟩
  rw [created.kept.cwdCluster]
  exact ⟨home, grows.dirs known, grows.chains home (owned.owners.dirs_files known) _ inChain⟩

theorem writeFile (owned : Owned st cat) (finished : fatWriteFile fuel name ext st = some (exit, st')) :
    ∃ cat', Owned st' cat' := by
  obtain ⟨_, _, _, dirs, directory, _⟩ := owned.directory
  obtain ⟨_, _, total, duplicate, stored⟩ := fatWriteFile_stores owned.wf owned.lagging directory
    (Nat.lt_succ_self _) name ext
  cases fatWriteFile_deterministic finished total
  cases found : (dirs.findSome? (fileDuplicateIn st.boot st.disk name)).isSome with
  | true => exact ⟨cat, owned.loaded (duplicate found).2⟩
  | false =>
    rcases stored found with full | ⟨_, _, _, _, _, _, storing⟩
    · exact ⟨cat, owned.loaded full.loaded⟩
    · exact owned.created directory storing (fun _ isDir => absurd rfl isDir)

theorem createDir (owned : Owned st cat) (orderly : FsCall.Orderly st (.createDir name))
    (finished : fatCreateDir fuel name st = some (exit, st')) : ∃ cat', Owned st' cat' := by
  obtain ⟨_, _, _, dirs, directory, _⟩ := owned.directory
  obtain ⟨_, _, total, duplicate, stored⟩ := fatCreateDir_stores owned.wf owned.lagging directory
    (Nat.lt_succ_self _) name
  cases fatCreateDir_deterministic finished total
  by_cases present : dirs.findSome? (dirDuplicateIn st.boot st.disk name) = some true
  · exact ⟨cat, owned.loaded (duplicate present).2⟩
  obtain ⟨room, clean⟩ := orderly dirs directory present
  rcases stored present with full | ⟨n, dirs', current, s, slot, placed, rfl, storing, rfl⟩
  · exact ⟨cat, owned.loaded full.loaded⟩
  obtain ⟨created, first⟩ := storing.initDir owned.wf (storing.place.initsAt room)
  refine owned.created directory created (fun some _ => ⟨first some, ?_⟩)
  intro t inside behind slot' below
  obtain ⟨data, free, _, outside⟩ := created.entry.taken some
  rw [created.entry.contents n data outside t inside (.inr behind)]
  exact clean n ⟨mem_freeClusters.mpr ⟨data, free⟩, fun coherent =>
    fatCreateDir_reserves owned.wf coherent directory finished some⟩ t inside behind slot' below

end Owned

/-- Where the sectors of one cluster lead in `fat_open_dir`. -/
theorem openInSectors_cwd (name : CString) (sektor count s : Nat) (found : Bool) (st : FatState) :
    (openInSectors name sektor count s found st).2.cwdCluster = st.cwdCluster ∨
      ∃ t slot, s ≤ t ∧ t < s + count ∧
        findInSector (Sector.slotIsDirNamed name) (ataReadSector st.disk (u32 (sektor + t))) = some slot ∧
        (openInSectors name sektor count s found st).2.cwdCluster =
          (ataReadSector st.disk (u32 (sektor + t))).slotCluster slot := by
  induction count generalizing s found st with
  | zero => exact .inl rfl
  | succ count ih =>
    rw [openInSectors]
    cases here : findInSector (Sector.slotIsDirNamed name) (ataReadSector st.disk (u32 (sektor + s))) with
    | some slot =>
      right
      rcases ih (s + 1) true { st with
          cwdCluster := (ataReadSector st.disk (u32 (sektor + s))).slotCluster slot
          cwdPath := strEnd name st.cwdPath } with stays | ⟨t, later, low, high, match', moves⟩
      · exact ⟨s, slot, Nat.le_refl s, by omega, here, stays⟩
      · exact ⟨t, later, by omega, by omega, match', moves⟩
    | none =>
      refine (ih (s + 1) found st).imp_right ?_
      rintro ⟨t, later, low, high, match', moves⟩
      exact ⟨t, later, by omega, by omega, match', moves⟩

namespace Owned

theorem entered (owned : Owned st cat) (directory : FatChain st.boot st.disk st.cwdCluster dirs)
    (orderly : FsCall.Orderly st (.openDir name)) (loaded : Loaded st last)
    (found : firstPlace st.boot st.disk (Sector.slotIsDirNamed name) dirs = some (cluster, hit)) :
    Owned (Fs.entered name st (cluster, hit) last).2 cat := by
  obtain ⟨home, known, _, dirs', directory', within⟩ := owned.directory
  cases directory'.unique directory
  obtain ⟨_, place⟩ := firstPlace_some found
  have before := owned.loaded loaded
  have walks := openInSectors_cwd name (st.boot.clusterSector cluster) st.boot.spc 0 false last
  obtain ⟨cwd, path, moves⟩ := openInSectors_moves name (st.boot.clusterSector cluster) st.boot.spc 0 false last
  rw [Fs.entered]
  rw [moves] at walks ⊢
  have inDir : cat.DirCluster cwd := by
    rcases walks with stays | ⟨t, slot, _, high, here, leads⟩
    · rw [show cwd = last.cwdCluster from stays]
      exact before.cwd
    · rw [loaded.disk] at here leads
      have inside : t < st.boot.spc := by omega
      obtain ⟨used, refers⟩ := orderly dirs directory cluster hit found t inside slot here
      obtain ⟨below, wanted, _⟩ := findInSector_some here
      have attributes := (Sector.slotIsDirNamed_iff.mp wanted).1
      have leads : cwd = Place.target st.boot st.disk ⟨cluster, t, slot⟩ := leads
      rw [leads]
      refine owned.target known ⟨within cluster place.member, inside, below⟩ used ?_ refers
      rw [Place.Directory, Sector.slotDirectory]
      have bits : (Place.buf st.boot st.disk ⟨cluster, t, slot⟩).attributes slot = 0x10 := attributes
      rw [bits]
      rfl
  have after := before.moved inDir path
  exact after.loaded ((Loaded.refl after.lagging.clean).next cluster)

theorem openDir (owned : Owned st cat) (orderly : FsCall.Orderly st (.openDir name))
    (finished : fatOpenDir fuel name st = some st') : Owned st' cat := by
  obtain ⟨_, _, _, dirs, directory, _⟩ := owned.directory
  obtain ⟨last, loaded, walked⟩ := @openLoop_chain _ _ (dirs.length + 1) name owned.wf owned.lagging
    directory (Nat.lt_succ_self _)
  have opened : ∀ result, loop (openTurn name) fuel (st.cwdCluster, st) = some result → Owned result.2 cat := by
    intro result looped
    cases loop_deterministic looped walked
    cases found : firstPlace st.boot st.disk (Sector.slotIsDirNamed name) dirs with
    | none => exact owned.loaded loaded
    | some place => exact owned.entered directory orderly loaded found
  obtain ⟨_, mid, looped, rfl | ⟨_, rfl⟩⟩ := fatOpenDir_cases finished
  · exact opened _ looped
  · exact (opened _ looped).printed _

theorem root (owned : Owned st cat) : cat.DirCluster st.boot.rootCluster.toNat :=
  ⟨_, owned.owners.root, owned.owners.apart.first_mem (owned.owners.dirs_files owned.owners.root)⟩

theorem cdBack (owned : Owned st cat) (orderly : FsCall.Orderly st .cdBack)
    (finished : fatCdBack fuel st = some st') : Owned st' cat := by
  rcases fatCdBack_cases finished with ⟨_, rfl⟩ | ⟨below, parent, path, link, rfl⟩
  · exact owned.printed _
  · refine owned.moved ?_ _
    obtain ⟨home, known, inChain⟩ := owned.cwd
    have sector : ataReadSector st.disk (st.boot.clusterSector st.cwdCluster) =
        clusterData st.boot st.disk st.cwdCluster 0 := by
      rw [clusterData, FAT32BootSector.clusterLba_zero]
    rw [sector] at link
    subst link
    split
    · exact owned.root
    · rename_i refers
      obtain ⟨used, isDir⟩ := (orderly.resolve_left below).resolve_left refers
      have inside : Place.In st.boot (cat.chains home) ⟨st.cwdCluster, 0, 1⟩ :=
        ⟨inChain, owned.wf.spc_pos, (by decide : 1 < 16)⟩
      have leads := owned.target known inside used isDir refers
      exact leads

end Owned

theorem FsCall.owned (call : FsCall) (orderly : call.Orderly st) (owned : Owned st cat)
    (returns : call.Returns st st') : ∃ cat', Owned st' cat' := by
  obtain ⟨fuel, exit, returned⟩ := returns
  cases FsCall.run_cases returned with
  | writeFile finished => exact owned.writeFile finished
  | createDir finished => exact owned.createDir orderly finished
  | openDir finished => exact ⟨cat, owned.openDir orderly finished⟩
  | cdBack finished => exact ⟨cat, owned.cdBack orderly finished⟩
  | cdRoot => exact ⟨cat, owned.moved owned.root _⟩
  | listDir | renameFile | deleteFile | readFile | writeData => exact absurd orderly id

/-- A volume that is accounted for stays so in a run of such calls. -/
theorem Owned.run (owned : Owned st cat) (run : Run (fun st call st' => FsCall.Returns st call st')
    (fun st call => call.Orderly st) st calls st') : ∃ cat', Owned st' cat' :=
  run.invariant (fun st => ∃ cat, Owned st cat)
    (fun _ call _ before orderly returns => before.elim (fun _ owned => call.owned orderly owned returns))
    ⟨cat, owned⟩

end LivlyOS.Fs
