import TinyKernel.Cpu
import TinyKernel.Frames.Allocator
import TinyKernel.Paging.Ram

/-!
# Address spaces

Translation goes through two levels.  The page directory of an address space has an entry for each
region of 4 MiB, which refers to a page table; the page table has an entry for each page of the
region, which refers to the frame of the page.  Page tables are created the first time that
something is mapped in their region, and they are never freed.

## What is load-bearing

A fresh directory copies the entries of the kernel's directory.  The page tables behind them are the
same frames, so what is mapped later in such a region shows in both; a table that is created later
belongs to one directory alone.

* `Paging.start` — builds the kernel's directory
* `Paging.createDirectory` — a fresh directory that shares the kernel's tables
* `Paging.map`, `Paging.unmap`, `Paging.translate` — one page at a time
* `Paging.switch` — makes a directory the current one
-/

namespace TinyKernel

/-- **A page directory**, by the frame that holds it.  Two directories in one frame are the same;
nothing says that the frame does hold a directory, and everything that a directory is used for looks
into memory. -/
structure PageDirectory where
  frame : Frame
  deriving DecidableEq

/-- The address that is loaded into the processor to use a directory, and that a process keeps in its
context. -/
def PageDirectory.address (d : PageDirectory) : PhysAddr := d.frame.start

/-- **The paging state**: memory, and which directories are the kernel's and the current one.  The
kernel's is the one that new directories copy from.  The current one is only noted here: it is the
processor that translates. -/
structure Paging where
  ram : Ram
  kernel? : Option PageDirectory
  current? : Option PageDirectory

namespace Paging

/-- Paging over some memory, with no directory yet.  Translations are looked up in it all the same, and
find nothing. -/
def ofRam (ram : Ram) : Paging := ⟨ram, none, none⟩

/-- An entry of a table, if its frame can be reached and the entry is in use.  Both steps of a
translation go through this. -/
def readPresent? (p : Paging) (frame : Frame) (i : Fin entriesPerTable) : Option PageTableEntry :=
  (p.ram.read? frame i).filter PageTableEntry.isPresent

/-- Replaces an entry of a table, if its frame can be reached; otherwise nothing changes, and the
refusal names the table. -/
def setEntry (p : Paging) (frame : Frame) (i : Fin entriesPerTable) (e : PageTableEntry) :
    Except MapError Unit × Paging :=
  if p.ram.reaches frame then
    (.ok (), { p with ram := p.ram.setEntry frame i e })
  else
    (.error (.unreachable frame.start), p)

/-- Takes a frame for a directory or a table, and zeroes it, so that it maps nothing.  A frame that
cannot be reached goes back, and the refusal names it. -/
def allocateTable (p : Paging) (frames : FrameAllocator) :
    Run (Except MapError Frame × Paging × FrameAllocator) := do
  match ← frames.alloc with
  | (none, frames) => pure (.error .outOfFrames, p, frames)
  | (some address, frames) =>
    let frame := address.frame
    if p.ram.reaches frame then
      pure (.ok frame, { p with ram := p.ram.clearTable frame }, frames)
    else
      let frames ← frames.free address
      pure (.error (.unreachable address), p, frames)

/-- The flags that an entry of a directory needs for a mapping with the given flags.  It always permits
writing, so that the entry of the table alone decides; user access must be allowed by both. -/
def tableFlags (flags : PageFlags) : PageFlags :=
  if flags.contains .user then .present ||| .writable ||| .user else .present ||| .writable

/-- **The page table for an address.**  If the directory has one, its entry gets the flags that it
lacks; otherwise a table is created. -/
def tableFor (p : Paging) (frames : FrameAllocator) (directory : PageDirectory) (address : VirtAddr)
    (flags : PageFlags) : Run (Except MapError Frame × Paging × FrameAllocator) := do
  let i := address.directoryIndex
  match p.ram.read? directory.frame i with
  | none => pure (.error (.unreachable directory.address), p, frames)
  | some entry =>
    if entry.isPresent then
      if entry.flags.contains (tableFlags flags) then
        pure (.ok entry.frame, p, frames)
      else
        let upgraded := PageTableEntry.ofFrame entry.frame (entry.flags ||| tableFlags flags)
        let (result, p) := p.setEntry directory.frame i upgraded
        pure (result.map fun _ => entry.frame, p, frames)
    else
      match ← p.allocateTable frames with
      | (.error e, p, frames) => pure (.error e, p, frames)
      | (.ok table, p, frames) =>
        let (result, p) := p.setEntry directory.frame i (.ofFrame table (tableFlags flags))
        pure (result.map fun _ => table, p, frames)

/-- **Maps a page.**  The page that an address lies in goes to the frame that `target` lies in.  The
mapping is always marked present; if a table is needed and cannot be had, nothing is mapped. -/
def map (p : Paging) (frames : FrameAllocator) (directory : PageDirectory) (address : VirtAddr)
    (target : PhysAddr) (flags : PageFlags) :
    Run (Except MapError Unit × Paging × FrameAllocator) := do
  match ← p.tableFor frames directory address flags with
  | (.error e, p, frames) => pure (.error e, p, frames)
  | (.ok table, p, frames) =>
    let (result, p) :=
      p.setEntry table address.tableIndex (.ofFrame target.frame (flags ||| .present))
    pure (result, p, frames)

/-- The entries that an address goes through: that of the directory, and that of the table.  There is
no such pair if either is not in use or lies out of reach. -/
def walk? (p : Paging) (directory : PageDirectory) (address : VirtAddr) :
    Option (PageTableEntry × PageTableEntry) := do
  let table ← p.readPresent? directory.frame address.directoryIndex
  let leaf ← p.readPresent? table.frame address.tableIndex
  pure (table, leaf)

/-- **The physical address** that an address translates to, if its page is mapped.  The frame is looked
up, and the byte of the page is kept. -/
def translate (p : Paging) (directory : PageDirectory) (address : VirtAddr) : Option PhysAddr :=
  (p.walk? directory address).map fun (_, leaf) => ⟨leaf.frame.start.val + address.pageOffset⟩

/-- Whether the page of an address is mapped.  This is a matter of the entries in memory, not of what
the processor may have kept of older ones. -/
def isMapped (p : Paging) (directory : PageDirectory) (address : VirtAddr) : Bool :=
  (p.translate directory address).isSome

/-- **Unmaps a page** and returns the frame that it went to, by its first address.  The frame is not
freed, and neither is the table, even if nothing is left in it.  Where nothing is mapped, nothing
happens, and nothing is flushed. -/
def unmap (p : Paging) (cpu : Cpu) (directory : PageDirectory) (address : VirtAddr) :
    Option PhysAddr × Paging × Cpu :=
  match p.walk? directory address with
  | none => (none, p, cpu)
  | some (table, leaf) =>
    (some leaf.frame.start,
      { p with ram := p.ram.setEntry table.frame address.tableIndex .empty }, cpu.flushTlb)

/-- Maps pages to themselves, one after the other, until one cannot be mapped.  The pages before that
one stay mapped. -/
def identityMap (p : Paging) (frames : FrameAllocator) (directory : PageDirectory) :
    List Nat → Run (Except MapError Unit × Paging × FrameAllocator)
  | [] => pure (.ok (), p, frames)
  | page :: pages => do
    let address := UInt32.ofNat (page * pageSize)
    match ← p.map frames directory ⟨address⟩ ⟨address⟩ (.present ||| .writable) with
    | (.ok (), p, frames) => p.identityMap frames directory pages
    | (.error e, p, frames) => pure (.error e, p, frames)

/-- **Builds the kernel's directory**, in which the low 4 MiB are mapped to themselves, and makes it
the current one.  Loading it into the processor is left to `switch`. -/
def start (p : Paging) (frames : FrameAllocator) :
    Run (Except MapError PageDirectory × Paging × FrameAllocator) := do
  match ← p.allocateTable frames with
  | (.error e, p, frames) => pure (.error e, p, frames)
  | (.ok frame, p, frames) =>
    let directory : PageDirectory := ⟨frame⟩
    match ← p.identityMap frames directory (List.range (identityMapSize / pageSize)) with
    | (.error e, p, frames) => pure (.error e, p, frames)
    | (.ok (), p, frames) =>
      Run.log .info ("kernel page directory at " ++ directory.address.text ++ ", "
        ++ Text.hex identityMapSize ++ " bytes identity mapped")
      pure (.ok directory, { p with kernel? := some directory, current? := some directory }, frames)

/-- Copies the present entries of one table to another, and stops at the first that cannot be read.
Entries that are not present are left as they are in the target, which is empty. -/
def copyEntries (p : Paging) (source target : Frame) : List (Fin entriesPerTable) → Paging
  | [] => p
  | i :: rest =>
    match p.ram.read? source i with
    | none => p
    | some entry =>
      let p := if entry.isPresent then { p with ram := p.ram.setEntry target i entry } else p
      p.copyEntries source target rest

/-- **A fresh directory** that shares the kernel's page tables.  Only entries that are present now are
copied: tables are shared from then on, in both directions, but a table that the kernel's directory
gets later is not seen in the new one. -/
def createDirectory (p : Paging) (frames : FrameAllocator) :
    Run (Option PageDirectory × Paging × FrameAllocator) := do
  match ← p.allocateTable frames with
  | (.error e, p, frames) =>
    Run.log .warn ("create_directory: " ++ e.message)
    pure (none, p, frames)
  | (.ok frame, p, frames) =>
    let p := match p.kernel? with
      | none => p
      | some kernel => p.copyEntries kernel.frame frame (List.finRange entriesPerTable)
    pure (some ⟨frame⟩, p, frames)

/-- **Makes a directory the current one** and loads it into the processor.  Whether it maps the code
that goes on running is not checked. -/
def switch (p : Paging) (cpu : Cpu) (directory : PageDirectory) : Paging × Cpu :=
  ({ p with current? := some directory }, cpu.loadDirectory directory.address)

end Paging

end TinyKernel
