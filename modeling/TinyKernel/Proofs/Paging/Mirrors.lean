import TinyKernel.Proofs.Paging.Spaces

/-!
# What a directory keeps of the kernel's

A new directory gets the entries that the kernel's directory has at that moment, and from then on
each of the two goes its own way.  Where the kernel's directory had a page table, both have it for
good, and whatever is mapped there in one of them is mapped in the other.  Where it had none, they
never come to have the same: what the kernel maps there later does not show in the new directory.

## What is load-bearing

An entry of a directory is written only where there was none, or so that it refers to the same table
as before; and a table that is created is in a frame that no directory refers to.  So which tables
are shared is decided when the directory is created (`Paging.Mirrors.tableFor`), and only the second
of these facts keeps two directories from sharing more.

* `Paging.Mirrors` — what a directory and the kernel's have in common, and what they have not
* `Paging.Mirrors.of_copied` — a new directory
* `Paging.Mirrors.mapped`, `Paging.Mirrors.unmap` — it stays so
-/

namespace TinyKernel.Paging

variable {window : VirtAddr → Prop} {shared : Fin entriesPerTable → Prop} {p p' : Paging}
  {kernel d f t : Frame} {dirs lent lent' : Finset Frame} {i : Fin entriesPerTable} {v w : VirtAddr}
  {flags : PageFlags}

/-- **What a directory has in common with the kernel's**: the tables of some regions, and no other
table.  In the other regions it maps nothing of a window, which is the kernel's to map.  The regions
are fixed when the directory is created, and the record then holds at all later times. -/
structure Mirrors (window : VirtAddr → Prop) (kernel d : Frame) (shared : Fin entriesPerTable → Prop)
    (p : Paging) : Prop where
  ne : d ≠ kernel
  same : ∀ i, shared i → ∃ t, p.target? kernel i = some t ∧ p.target? d i = some t
  apart : ∀ i, ¬ shared i → ∀ t, p.target? d i = some t → p.target? kernel i ≠ some t
  unmapped : ∀ w, window w → ¬ shared w.directoryIndex → p.frameOf? d w = none

namespace Mirrors

/-- Addresses in a shared region go to the same frame, because the walk continues in the same table. -/
theorem frameOf?_eq (m : Mirrors window kernel d shared p) (hw : shared w.directoryIndex) :
    p.frameOf? d w = p.frameOf? kernel w := by
  obtain ⟨t, hkernel, hd⟩ := m.same _ hw
  rw [frameOf?, frameOf?, hkernel, hd]

theorem congr (m : Mirrors window kernel d shared p)
    (hkernel : ∀ i, p'.target? kernel i = p.target? kernel i)
    (hd : ∀ i, p'.target? d i = p.target? d i)
    (hframe : ∀ w, window w → ¬ shared w.directoryIndex → p'.frameOf? d w = p.frameOf? d w) :
    Mirrors window kernel d shared p' where
  ne := m.ne
  same i hi := by
    rw [hkernel, hd]
    exact m.same i hi
  apart i hi t := by
    rw [hkernel, hd]
    exact m.apart i hi t
  unmapped w hw hi := (hframe w hw hi).trans (m.unmapped w hw hi)

section

variable (m : Mirrors window kernel d shared p) (h : Spaces p dirs) (hkernel : kernel ∈ dirs)
  (hd : d ∈ dirs)
include m h hkernel hd

/-- **However a table is found**, nothing more is shared than before, and nothing less: a region of one
directory that gets a table gets a fresh one. -/
theorem tableFor (hf : f ∈ dirs) (hdirs : dirs ⊆ lent) (htables : p.tableFrames dirs ⊆ lent)
    (hfor : TableFor p f i flags lent t p' lent') : Mirrors window kernel d shared p' := by
  obtain ⟨hwas, htargets⟩ := h.target?_tableFor hdirs htables hfor
  obtain ⟨-, -, -, hframe⟩ := h.tableFor hf hdirs htables hfor
  rcases hwas with ht | ⟨hnone, hunused⟩
  · have hsame : ∀ f' ∈ dirs, ∀ j, p'.target? f' j = p.target? f' j := by
      intro f' hf' j
      rw [htargets f' hf']
      split
      case isTrue heq => rw [heq.1, heq.2, ht]
      case isFalse => rfl
    exact m.congr (hsame kernel hkernel) (hsame d hd) fun w _ _ => hframe d hd w
  · -- the table is new, and no directory referred to it
    have hnew : ∀ f' ∈ dirs, ∀ j, p.target? f' j ≠ some t := fun f' hf' j heq =>
      hunused (mem_tableFrames.mpr ⟨f', hf', j, heq⟩)
    have hkept : ∀ f' ∈ dirs, ∀ j t', p.target? f' j = some t' → p'.target? f' j = some t' := by
      intro f' hf' j t' ht'
      rw [htargets f' hf', if_neg, ht']
      rintro ⟨rfl, rfl⟩
      cases hnone.symm.trans ht'
    refine ⟨m.ne, fun j hj => ?_, fun j hj t' ht' => ?_, fun w hw hj => ?_⟩
    · obtain ⟨t', hkernel', hd'⟩ := m.same j hj
      exact ⟨t', hkept kernel hkernel j t' hkernel', hkept d hd j t' hd'⟩
    · rw [htargets d hd] at ht'
      rw [htargets kernel hkernel]
      split at ht' <;> split
      case isTrue.isTrue h₁ h₂ => exact absurd (h₁.1.trans h₂.1.symm) m.ne
      case isTrue.isFalse =>
        obtain rfl := Option.some.inj ht'
        exact hnew kernel hkernel j
      case isFalse.isTrue =>
        intro heq
        obtain rfl := Option.some.inj heq
        exact hnew d hd j ht'
      case isFalse.isFalse => exact m.apart j hj t' ht'
    · rw [hframe d hd]
      exact m.unmapped w hw hj

/-- **An entry of a table is written**, in the kernel's directory, or for a page that lies outside the
window.  A write through a shared table is seen on both sides, and one through a table of its own is
not. -/
theorem written (hf : f ∈ dirs) (ht : p.target? f v.directoryIndex = some t) (e : PageTableEntry)
    (hv : f = kernel ∨ ∀ w, window w → ¬ v.SamePage w) :
    Mirrors window kernel d shared (p.withEntry t v.tableIndex e) := by
  refine m.congr (h.target?_written hf ht e hkernel) (h.target?_written hf ht e hd) fun w hw hj => ?_
  refine h.frameOf?_written_of_not hf ht e hd ?_
  -- the table would be the kernel's, and the directory has another or none
  rintro ⟨hdt, hpage⟩
  obtain rfl := hv.resolve_right fun hout => hout w hw hpage
  exact m.apart _ (hpage.1 ▸ hj) t hdt ht

/-- **A page is mapped** in the kernel's directory, or outside the window: a table is found, and an
entry of it is written. -/
theorem mapped (hf : f ∈ dirs) (hdirs : dirs ⊆ lent) (htables : p.tableFrames dirs ⊆ lent)
    (hfor : TableFor p f v.directoryIndex flags lent t p' lent') (e : PageTableEntry)
    (hv : f = kernel ∨ ∀ w, window w → ¬ v.SamePage w) :
    Mirrors window kernel d shared (p'.withEntry t v.tableIndex e) := by
  obtain ⟨h', ht, -, -⟩ := h.tableFor hf hdirs htables hfor
  exact (m.tableFor h hkernel hd hf hdirs htables hfor).written h' hkernel hd hf ht e hv

/-- **A page is unmapped** in the kernel's directory, or outside the window.  An entry is emptied if
there is one, and otherwise nothing happens. -/
theorem unmap {directory : PageDirectory} (hf : directory.frame ∈ dirs) (cpu : Cpu)
    (hv : directory.frame = kernel ∨ ∀ w, window w → ¬ v.SamePage w) :
    Mirrors window kernel d shared (p.unmap cpu directory v).2.1 := by
  obtain ⟨-, ⟨-, heq⟩ | ⟨t, ht, heq⟩⟩ := Spaces.unmap_cases p cpu directory v
  · rwa [heq]
  · rw [heq]
    exact m.written h hkernel hd hf ht .empty hv

end

/-- **A new directory** that refers to what the kernel's refers to shares its tables: those that there
are now, and no later one. -/
theorem of_copied (hne : d ≠ kernel) (hkernel : ∀ i, p'.target? kernel i = p.target? kernel i)
    (hcopied : ∀ i, p'.target? d i = p.target? kernel i) :
    Mirrors window kernel d (fun i => (p.target? kernel i).isSome) p' where
  ne := hne
  same i hi := by
    obtain ⟨t, ht⟩ := Option.isSome_iff_exists.mp hi
    exact ⟨t, (hkernel i).trans ht, (hcopied i).trans ht⟩
  apart i hi t ht := by
    rw [hcopied] at ht
    exact absurd (ht ▸ rfl) hi
  unmapped w _ hi := by
    rw [frameOf?, hcopied, Option.not_isSome_iff_eq_none.mp hi]
    rfl

end Mirrors

end TinyKernel.Paging
