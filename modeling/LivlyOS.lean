import LivlyOS.Lib.Bytes
import LivlyOS.Lib.Loop
import LivlyOS.Lib.Chain
import LivlyOS.Fs.Volume
import LivlyOS.Fs.Fat
import LivlyOS.Fs.Geometry
import LivlyOS.Fs.Directory
import LivlyOS.Fs.Operations
import LivlyOS.Fs.Cache
import LivlyOS.Fs.DirectFat
import LivlyOS.Fs.FatTable
import LivlyOS.Fs.Lookup
import LivlyOS.Fs.FileData
import LivlyOS.Fs.Image
import LivlyOS.Fs.RoundTrip
import LivlyOS.Fs.Lagging
import LivlyOS.Fs.WriteLoop
import LivlyOS.Fs.MissingFile
import LivlyOS.Fs.Walk
import LivlyOS.Lib.Run
import LivlyOS.Fs.Calls
import LivlyOS.Fs.Coherence
import LivlyOS.Fs.Tree
import LivlyOS.Fs.Intact
import LivlyOS.Fs.Ownership
import LivlyOS.Fs.Creation
import LivlyOS.Fs.CrossLinks
import LivlyOS.Lib.Bitmap
import LivlyOS.Mm.Pmm
import LivlyOS.Mm.PageOwnership
import LivlyOS.Lib.Tiling
import LivlyOS.Mm.Kmalloc
import LivlyOS.Mm.HeapSafety
import LivlyOS.Lib.Ring
import LivlyOS.Proc.Process
import LivlyOS.Proc.Schedular
import LivlyOS.Proc.SchedularRing
import LivlyOS.Proc.SchedularRuns
import LivlyOS.Proc.RoundRobin
import LivlyOS.Apps.Editor
import LivlyOS.Apps.EditorRows
import LivlyOS.Apps.EditorInvariant
import LivlyOS.Apps.EditorEdits
import LivlyOS.Apps.EditorSelection
import LivlyOS.Apps.EditorScreen
import LivlyOS.Apps.EditorText
import LivlyOS.Apps.EditorRuns
import LivlyOS.Apps.SelectedText
import LivlyOS.Lib.TableTree
import LivlyOS.Mm.Vmm
import LivlyOS.Mm.PageMap
import LivlyOS.Mm.BootPaging
import LivlyOS.Fs.Saving
import LivlyOS.Fs.ChainWalk
import LivlyOS.Fs.FullDisk
import LivlyOS.Fs.Listing
import LivlyOS.Fs.NewFiles
import LivlyOS.Apps.FileBuffer
import LivlyOS.Fs.ReadTimeouts
import LivlyOS.Fs.WalksEnd
import LivlyOS.Fs.PathTracking
import LivlyOS.Fs.UniqueNames
import LivlyOS.Fs.ParentLink
import LivlyOS.Fs.OwnedRuns
import LivlyOS.Fs.SafeDeletes
import LivlyOS.Apps.EditorFile
import LivlyOS.Lib.CString
import LivlyOS.Shell.Commands
import LivlyOS.Shell.Dispatch
import LivlyOS.Shell.TaskKill
import LivlyOS.Lib.Recent
import LivlyOS.Shell.Shell
import LivlyOS.Shell.LineEditor
import LivlyOS.Shell.Sessions
import LivlyOS.Proc.Reaper
import LivlyOS.Proc.Creation
import LivlyOS.Mm.StrayMappings
import LivlyOS.Apps.EditorEffects
import LivlyOS.Apps.EditorHistory
import LivlyOS.Apps.EditorUndo
import LivlyOS.Apps.EditorRedo
import LivlyOS.Apps.EditorRedraw
import LivlyOS.Apps.EditorMarks
import LivlyOS.Mm.Unmapped
import LivlyOS.Mm.PageCount
import LivlyOS.Mm.OverlappingMap
import LivlyOS.Mm.ClaimedMemory
import LivlyOS.Proc.LargeRings
import LivlyOS.Fs.ChainAlloc
import LivlyOS.Fs.CreatedFiles
import LivlyOS.Fs.DeletedFiles
import LivlyOS.Fs.EmptyDirectories
import LivlyOS.Mm.HeapNesting
import LivlyOS.Mm.PageReturn
import LivlyOS.Mm.ExhaustedMap
import LivlyOS.Fs.PathBounds
import LivlyOS.Fs.VolumeArithmetic
import LivlyOS.Fs.Renaming
import LivlyOS.Shell.RenameCommand
import LivlyOS.Fs.ClusterZero
import LivlyOS.Apps.HighlightedText
import LivlyOS.Lib.Typing
import LivlyOS.Apps.PastedText
import LivlyOS.Apps.UndoRuns
import LivlyOS.Drivers.Keyboard
import LivlyOS.Drivers.KeyboardQueue
import LivlyOS.Drivers.ShiftKeys
import LivlyOS.Console.Vga
import LivlyOS.Lib.Wrapping
import LivlyOS.Console.VgaText
import LivlyOS.Console.Console
import LivlyOS.Shell.Screen
import LivlyOS.Console.ClearedLine
import LivlyOS.Console.DrawnLine
import LivlyOS.Boot.KernelFile
import LivlyOS.Boot.MemoryCheck
import LivlyOS.Console.Numbers
import LivlyOS.Lib.Numeral
import LivlyOS.Fs.StoredNames
import LivlyOS.Interrupts.Stubs
import LivlyOS.Lib.StackCode
import LivlyOS.Interrupts.Resumption
import LivlyOS.Interrupts.Pic
import LivlyOS.Interrupts.Handler
import LivlyOS.Interrupts.System
import LivlyOS.Interrupts.Tables
import LivlyOS.Interrupts.Report
import LivlyOS.Lib.Refinement
import LivlyOS.Fs.VisibleRoom
import LivlyOS.Fs.FileStore
import LivlyOS.Fs.FileUpdates
import LivlyOS.Fs.FileCalls
import LivlyOS.Fs.FileCreation
import LivlyOS.Fs.FileRuns
import LivlyOS.Fs.FileListing
import LivlyOS.Console.Font
import LivlyOS.Console.FbConsole
import LivlyOS.Console.FbScreen
import LivlyOS.Console.FbText
import LivlyOS.Shell.FileCommands
import LivlyOS.Shell.Terminal
import LivlyOS.Drivers.Ata
import LivlyOS.Drivers.AtaRegisters
import LivlyOS.Drivers.AtaRuns
import LivlyOS.Boot.KernelLoad
import LivlyOS.Boot.UefiMap
import LivlyOS.Mm.OpenedPages
import LivlyOS.Boot.MemoryMap
import LivlyOS.Boot.Stage2
