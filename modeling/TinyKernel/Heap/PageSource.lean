import TinyKernel.Console

/-!
# Where heap pages come from

A heap grows by whole pages, and it asks a *page source* for each of them.  A source may refuse any
page at any time.  If one page of a range is refused, the pages of that range that were backed
before it are released again.

* `PageSource` — what a source of pages can do
* `backRange` — backs a range, or nothing of it
* `PageQuota` — a source that counts, and refuses by a limit and a list
-/

namespace TinyKernel

/-- **A source of heap pages**, with its state.  A heap gets every page it grows by from here, and has
no other way to learn whether memory is left.  The kernel's own source is `KernelPages`, and
`PageQuota` is one that only counts. -/
class PageSource (σ : Type) where
  /-- Backs the page at an address, or says why it cannot be had.  A refusal may change the state. -/
  back : VirtAddr → σ → Run (Except MapError Unit × σ)
  /-- Undoes `back` for a page that the heap could not use after all, because one behind it was
  refused. -/
  release : VirtAddr → σ → Run σ

/-- The offsets at which the pages of `bytes` bytes begin, in increasing order.  The last page is a
whole one, even if the bytes are not. -/
def pageOffsets (bytes : Nat) : List Nat :=
  (List.range ((bytes + (pageSize - 1)) / pageSize)).map (· * pageSize)

/-- The address of the page at an offset from `origin`, which is counted from `start`.  Both sums are
checked: a page past the end of the address space is a fault, and is never asked for. -/
def pageAddress (start : VirtAddr) (origin offset : Nat) : Checked VirtAddr := do
  let distance ← Checked.add64 origin offset
  pure ⟨← Checked.add32 start.val (UInt32.ofNat distance)⟩

section

variable {σ : Type} [PageSource σ]

/-- Releases the pages at some offsets from `origin`, one after the other and in the order given. -/
def releasePages (start : VirtAddr) (origin : Nat) (pages : σ) : List Nat → Run σ
  | [] => pure pages
  | offset :: rest => do
    let pages ← PageSource.release (← pageAddress start origin offset) pages
    releasePages start origin pages rest

/-- Backs the pages at some offsets from `origin`, one after the other.  When one is refused, the
pages before it are released, and the answer is the page refused and the reason. -/
def backPages (start : VirtAddr) (origin : Nat) (pages : σ) :
    List Nat → Run (Except (VirtAddr × MapError) Unit × σ)
  | [] => pure (.ok (), pages)
  | offset :: rest => do
    let page ← pageAddress start origin offset
    match ← PageSource.back page pages with
    | (.ok (), pages) => backPages start origin pages rest
    | (.error e, pages) =>
      let pages ← releasePages start origin pages (pageOffsets offset)
      pure (.error (page, e), pages)

/-- **Backs a range of pages**, or nothing of it.  A heap that grows calls this with its old size as
`origin`, and so asks for exactly the pages behind its end. -/
def backRange (start : VirtAddr) (origin bytes : Nat) (pages : σ) :
    Run (Except (VirtAddr × MapError) Unit × σ) :=
  backPages start origin pages (pageOffsets bytes)

end

/-- **A page source that counts.**  It refuses the pages on a list as unreachable, and every page once
`limit` pages are backed; a page that is released can be backed again. -/
structure PageQuota where
  limit : Nat
  denied : List VirtAddr
  /-- The pages that are backed, in the order in which they were. -/
  backed : Array VirtAddr := #[]
  /-- The pages that were released, in the order in which they were. -/
  released : Array VirtAddr := #[]

instance : PageSource PageQuota where
  back page q :=
    if page ∈ q.denied then
      pure (.error (.unreachable ⟨page.val⟩), q)
    else if q.limit ≤ q.backed.size then
      pure (.error .outOfFrames, q)
    else
      pure (.ok (), { q with backed := q.backed.push page })
  release page q :=
    pure { q with backed := q.backed.filter (· ≠ page), released := q.released.push page }

end TinyKernel
