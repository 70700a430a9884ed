import TinyKernel.Proofs.Paging.Readiness
import TinyKernel.Proofs.Paging.Session

/-!
# What becomes of entries

An entry of a directory is put into use once and is in use ever after.  It refers to the same table
from then on, and its flags only become more.  An entry of a table changes when its page is mapped or
unmapped, and at no other time.

## What is load-bearing

Frames that are not in use hold what they held when they were given back.  An entry of a directory
that is not in use is empty nevertheless, as every directory was zeroed and only entries in use are
written to it (`Paging.Tidy`), so that nothing is lost when the entry is put into use.

* `PageTableEntry.Evolves` — what becomes of an entry of a directory
* `Paging.Evolves` — what becomes of all of them, and of the entries of their tables
* `Paging.Housed.map_writesPage`, `Paging.Housed.start_evolves` — what the operations do to entries
-/

namespace TinyKernel

/-! ## Flags among flags -/

namespace PageFlags

variable {a b c : PageFlags}

theorem contains_iff : a.contains b = true ↔ a.bits &&& b.bits = b.bits := by
  rw [contains, beq_iff_eq]

theorem contains_self (a : PageFlags) : a.contains a = true := contains_iff.mpr UInt32.and_self

theorem contains_trans (hab : a.contains b = true) (hbc : b.contains c = true) :
    a.contains c = true := by
  rw [contains_iff] at hab hbc ⊢
  rw [← hbc, ← UInt32.and_assoc, hab]

theorem contains_or_left (a b : PageFlags) : (a ||| b).contains a = true := by
  rw [contains_iff, bits_or, UInt32.or_comm]
  exact contains_iff.mp (contains_or_right b a)

end PageFlags

/-! ## One entry -/

namespace PageTableEntry

/-- **What becomes of an entry of a directory.**  It stays as it is, or is in use; and once it is in
use it refers to the same table for good, and has at least the flags that it had.  An entry that is not
in use promises nothing about its frame. -/
structure Evolves (e e' : PageTableEntry) : Prop where
  used : e' = e ∨ e'.isPresent = true
  frame_eq : e.isPresent = true → e'.frame = e.frame
  contains : e.isPresent = true → e'.flags.contains e.flags = true

namespace Evolves

variable {e e' e'' : PageTableEntry}

theorem refl (e : PageTableEntry) : e.Evolves e :=
  ⟨Or.inl rfl, fun _ => rfl, fun _ => PageFlags.contains_self _⟩

theorem isPresent (h : e.Evolves e') (hpresent : e.isPresent = true) : e'.isPresent = true :=
  PageFlags.contains_trans (h.contains hpresent) hpresent

theorem trans (h : e.Evolves e') (h' : e'.Evolves e'') : e.Evolves e'' where
  used := by
    rcases h'.used with rfl | hused
    · exact h.used
    · exact Or.inr hused
  frame_eq hpresent := (h'.frame_eq (h.isPresent hpresent)).trans (h.frame_eq hpresent)
  contains hpresent :=
    PageFlags.contains_trans (h'.contains (h.isPresent hpresent)) (h.contains hpresent)

/-- An entry that is not in use can be put into use, with any frame and any flags: it had nothing to
keep. -/
theorem of_unused (hunused : e.isPresent = false) (hpresent : e'.isPresent = true) :
    e.Evolves e' := by
  refine ⟨Or.inr hpresent, fun hused => ?_, fun hused => ?_⟩
  all_goals
    rw [hunused] at hused
    cases hused

end Evolves

theorem isPresent_ofFrame (f : Frame) {flags : PageFlags} (hpresent : flags.contains .present = true) :
    (ofFrame f flags).isPresent = true := by
  have hnamed : flags.named.contains .present = decide (flags.bits.toNat % 2 = 1) :=
    isPresent_eq ⟨flags.bits⟩
  rwa [isPresent, flags_ofFrame, hnamed, ← PageFlags.contains_present]

/-- An entry in use can get the flags that it lacks for a mapping.  What the word held beside its frame
and the flags with names is lost, and was no flag of the entry. -/
theorem Evolves.upgraded {e : PageTableEntry} (hpresent : e.isPresent = true) (flags : PageFlags) :
    e.Evolves (.ofFrame e.frame (e.flags ||| Paging.tableFlags flags)) := by
  have hused : (ofFrame e.frame (e.flags ||| Paging.tableFlags flags)).isPresent = true :=
    isPresent_ofFrame _ (PageFlags.contains_trans (PageFlags.contains_or_left ..) hpresent)
  refine ⟨Or.inr hused, fun _ => ?_, fun _ => ?_⟩
  · have htarget := Paging.target?_upgradedEntry e flags
    rwa [target?_of_isPresent hused, Option.some.injEq] at htarget
  · have hlt : (e.flags ||| Paging.tableFlags flags).bits.toNat < 2 ^ 3 :=
      PageFlags.or_lt (PageFlags.named_lt _) (Paging.tableFlags_lt flags)
    rw [flags_ofFrame, PageFlags.named_of_lt hlt]
    exact PageFlags.contains_or_left ..

end PageTableEntry

/-! ## All entries -/

namespace Paging

/-- **What becomes of the entries** of some directories, and of those of their tables: the latter
change at most where it is said that they are written.  `written` is a parameter, so that one call can
name its entry and a whole session can allow all of them. -/
structure Evolves (dirs : Finset Frame) (written : Frame → Fin entriesPerTable → Prop)
    (p p' : Paging) : Prop where
  entry : ∀ d ∈ dirs, ∀ i e, p.ram.read? d i = some e →
    ∃ e', p'.ram.read? d i = some e' ∧ e.Evolves e'
  leaf : ∀ t ∈ p.tableFrames dirs, ∀ i, ¬ written t i → p'.ram.read? t i = p.ram.read? t i

/-- **The entries of a directory that are not in use are empty**, and have no stray flags.  Without
this an unused entry could lose flags when it is put into use, which `Evolves` alone permits. -/
def Tidy (p : Paging) (d : Frame) : Prop :=
  ∀ i e, p.ram.read? d i = some e → e.isPresent = true ∨ e = .empty

variable {p p' p'' : Paging} {dirs dirs' lent lent' : Finset Frame} {d t f : Frame}
  {i j : Fin entriesPerTable} {e : PageTableEntry} {flags : PageFlags} {v : VirtAddr}
  {written written' : Frame → Fin entriesPerTable → Prop}

namespace Evolves

/-- Only memory counts.  Which directories are the kernel's and the current one makes no difference. -/
theorem of_ram_eq (hram : p'.ram = p.ram) : Evolves dirs written p p' := by
  constructor
  · intro d _ i e hread
    rw [hram]
    exact ⟨e, hread, .refl e⟩
  · intro t _ i _
    rw [hram]

theorem refl (dirs : Finset Frame) (written : Frame → Fin entriesPerTable → Prop) (p : Paging) :
    Evolves dirs written p p :=
  of_ram_eq rfl

/-- A region that has its table keeps it, whatever was written to the tables themselves. -/
theorem target? (h : Evolves dirs written p p') (hd : d ∈ dirs) (ht : p.target? d i = some t) :
    p'.target? d i = some t := by
  obtain ⟨e, hread, htarget⟩ := Option.bind_eq_some_iff.mp ht
  obtain ⟨e', hread', hevolves⟩ := h.entry d hd i e hread
  have hpresent : e.isPresent = true := by
    by_contra habsent
    rw [PageTableEntry.target?, if_neg habsent] at htarget
    cases htarget
  rw [PageTableEntry.target?_of_isPresent hpresent, Option.some.injEq] at htarget
  rw [target?_of_read? hread', PageTableEntry.target?_of_isPresent (hevolves.isPresent hpresent),
    hevolves.frame_eq hpresent, htarget]

/-- **A page stays where it is** if its entry is not written.  The way to the entry is kept by
`target?`, so the hypothesis is about the table that the page goes through now. -/
theorem frameOf? (h : Evolves dirs written p p') (hd : d ∈ dirs) (hf : p.frameOf? d v = some f)
    (hnot : ∀ t, p.target? d v.directoryIndex = some t → ¬ written t v.tableIndex) :
    p'.frameOf? d v = some f := by
  obtain ⟨t, ht, hleaf⟩ := Option.bind_eq_some_iff.mp hf
  have hmem : t ∈ p.tableFrames dirs := mem_tableFrames.mpr ⟨d, hd, _, ht⟩
  rw [Paging.frameOf?, h.target? hd ht, Option.bind_some, Paging.target?,
    h.leaf t hmem _ (hnot t ht)]
  exact hleaf

theorem tableFrames_subset (h : Evolves dirs written p p') :
    p.tableFrames dirs ⊆ p'.tableFrames dirs := by
  intro t ht
  obtain ⟨d, hd, i, ht⟩ := mem_tableFrames.mp ht
  exact mem_tableFrames.mpr ⟨d, hd, i, h.target? hd ht⟩

theorem trans (h : Evolves dirs written p p') (h' : Evolves dirs written p' p'') :
    Evolves dirs written p p'' where
  entry d hd i e hread := by
    obtain ⟨e', hread', hevolves⟩ := h.entry d hd i e hread
    obtain ⟨e'', hread'', hevolves'⟩ := h'.entry d hd i e' hread'
    exact ⟨e'', hread'', hevolves.trans hevolves'⟩
  leaf t ht i hnot := (h'.leaf t (h.tableFrames_subset ht) i hnot).trans (h.leaf t ht i hnot)

theorem subset (h : Evolves dirs written p p') (hsub : dirs' ⊆ dirs) :
    Evolves dirs' written p p' where
  entry d hd := h.entry d (hsub hd)
  leaf t ht := h.leaf t (tableFrames_mono hsub ht)

/-- Only what is written in the tables that there are counts as written, so that a write to a fresh
table can be left out of the account. -/
theorem mono (h : Evolves dirs written p p')
    (himp : ∀ t ∈ p.tableFrames dirs, ∀ i, written t i → written' t i) :
    Evolves dirs written' p p' where
  entry := h.entry
  leaf t ht i hnot := h.leaf t ht i fun hwritten => hnot (himp t ht i hwritten)

theorem ready (h : Evolves dirs written p p') (hd : d ∈ dirs) (ready : p.Ready d i flags) :
    p'.Ready d i flags := by
  obtain ⟨e, hread, hpresent, hflags⟩ := ready
  obtain ⟨e', hread', hevolves⟩ := h.entry d hd i e hread
  exact ⟨e', hread', hevolves.isPresent hpresent,
    PageFlags.contains_trans (hevolves.contains hpresent) hflags⟩

theorem tidy (h : Evolves dirs written p p') (hd : d ∈ dirs) (hreach : p.ram.reaches d = true)
    (tidy : p.Tidy d) : p'.Tidy d := by
  intro i e' hread'
  obtain ⟨e, hread⟩ := Option.isSome_iff_exists.mp ((Ram.reaches_iff_read? i).mp hreach)
  obtain ⟨e'', hread'', hevolves⟩ := h.entry d hd i e hread
  obtain rfl := Option.some.inj (hread'.symm.trans hread'')
  rcases hevolves.used with rfl | hused
  · exact tidy i _ hread
  · exact Or.inl hused

/-- An entry of a tidy directory has no flag less than before, be it in use or not; and one in use
keeps its table. -/
theorem contains (h : Evolves dirs written p p') (hd : d ∈ dirs) (tidy : p.Tidy d)
    (hread : p.ram.read? d i = some e) :
    ∃ e', p'.ram.read? d i = some e' ∧ e'.flags.contains e.flags = true
      ∧ (e.isPresent = true → e'.frame = e.frame) := by
  obtain ⟨e', hread', hevolves⟩ := h.entry d hd i e hread
  refine ⟨e', hread', ?_, hevolves.frame_eq⟩
  rcases tidy i e hread with hpresent | rfl
  · exact hevolves.contains hpresent
  · exact PageFlags.contains_iff.mpr UInt32.and_zero

/-- What changes a frame that was not lent out changes no entry: directories and tables lie in frames
that were. -/
theorem of_fresh (hdirs : dirs ⊆ lent) (htables : p.tableFrames dirs ⊆ lent) (hfresh : f ∉ lent)
    (hother : ∀ g, g ≠ f → ∀ j, p'.ram.read? g j = p.ram.read? g j) :
    Evolves dirs written p p' where
  entry d hd i e hread := by
    have hne : d ≠ f := fun heq => hfresh (heq ▸ hdirs hd)
    exact ⟨e, (hother d hne i).trans hread, .refl e⟩
  leaf t ht i _ := hother t (fun heq => hfresh (heq ▸ htables ht)) i

end Evolves

/-! ## What is written -/

theorem read?_withEntry_of_ne (hne : f ≠ t) (e : PageTableEntry) :
    (p.withEntry t i e).ram.read? f j = p.ram.read? f j := by
  rw [withEntry, Ram.read?_setEntry, if_neg fun heq => hne heq.1]

theorem read?_withZeroed_of_ne (hne : f ≠ t) : (p.withZeroed t).ram.read? f j = p.ram.read? f j := by
  rw [withZeroed, Ram.read?_clearTable, if_neg hne]

theorem read?_withEntry_self (hreach : p.ram.reaches t = true) (e : PageTableEntry) :
    (p.withEntry t i e).ram.read? t i = some e := by
  obtain ⟨old, hold⟩ := Option.isSome_iff_exists.mp ((Ram.reaches_iff_read? i).mp hreach)
  rw [withEntry, Ram.read?_setEntry, if_pos ⟨rfl, rfl⟩, hold, Option.map_some]

/-- **An entry of a table is written**, and no other one changes.  No directory is touched, since a
table is never one of them. -/
theorem Evolves.withEntry (h : p.Spaces dirs) (hd : d ∈ dirs)
    (ht : p.target? d v.directoryIndex = some t) (e : PageTableEntry) :
    Evolves dirs (fun t' j => t' = t ∧ j = v.tableIndex) p (p.withEntry t v.tableIndex e) where
  entry d' hd' i' e' hread := by
    have hne : d' ≠ t := fun heq => h.table_not_mem d hd _ t ht (heq ▸ hd')
    exact ⟨e', (read?_withEntry_of_ne hne e).trans hread, .refl e'⟩
  leaf t' _ j' hnot := by rw [Paging.withEntry, Ram.read?_setEntry, if_neg hnot]

/-- One entry of a directory is replaced by what it becomes.  No leaf changes: the directory is not
among the tables. -/
theorem Evolves.withUpgraded (hapart : d ∉ p.tableFrames dirs) (hread : p.ram.read? d i = some e)
    {e' : PageTableEntry} (hevolves : e.Evolves e') : Evolves dirs written p (p.withEntry d i e') where
  entry d' hd' j' old hold := by
    rw [Paging.withEntry, Ram.read?_setEntry]
    split
    case isFalse => exact ⟨old, hold, .refl old⟩
    case isTrue heq =>
      obtain ⟨rfl, rfl⟩ := heq
      obtain rfl := Option.some.inj (hread.symm.trans hold)
      exact ⟨e', by rw [hread, Option.map_some], hevolves⟩
  leaf t' ht' j' _ := by
    have hne : t' ≠ d := by
      rintro rfl
      exact hapart ht'
    exact read?_withEntry_of_ne hne e'

/-- **However a table is found**, nothing is lost, and no page changes.  One case for each of the three
ways: it was there, its entry got flags, or a fresh frame became the table. -/
theorem Evolves.tableFor (h : p.Spaces dirs) (hd : d ∈ dirs) (hdirs : dirs ⊆ lent)
    (htables : p.tableFrames dirs ⊆ lent) (hfor : TableFor p d i flags lent t p' lent') :
    Evolves dirs written p p' := by
  cases hfor with
  | found => exact .refl ..
  | upgraded e hread hpresent =>
      exact .withUpgraded (h.apart hd).2 hread (.upgraded hpresent flags)
  | created e _ hread habsent hfresh hreach =>
      have hne : d ≠ t := fun heq => hfresh (heq ▸ hdirs hd)
      obtain ⟨hspaces, -, -⟩ :=
        h.zeroed (fun hmem => hfresh (hdirs hmem)) (fun hmem => hfresh (htables hmem)) hreach
      have hapart : d ∉ (p.withZeroed t).tableFrames dirs := fun hmem =>
        (hspaces.apart (Finset.mem_insert_of_mem hd)).2
          (tableFrames_mono (Finset.subset_insert t dirs) hmem)
      have hzeroed : Evolves dirs written p (p.withZeroed t) :=
        .of_fresh hdirs htables hfresh fun _ hne _ => read?_withZeroed_of_ne hne
      refine hzeroed.trans (.withUpgraded (e := e) hapart ?_ ?_)
      · exact (read?_withZeroed_of_ne hne).trans hread
      · exact .of_unused habsent (PageTableEntry.isPresent_ofFrame t (tableFlags_present flags))

/-! ## Tidy directories -/

/-- A frame that was zeroed is tidy, as a directory is when it is created. -/
theorem tidy_withZeroed (p : Paging) (d : Frame) : (p.withZeroed d).Tidy d := by
  intro i e hread
  rw [withZeroed, Ram.read?_clearTable, if_pos rfl, Option.map_eq_some_iff] at hread
  obtain ⟨-, -, rfl⟩ := hread
  exact Or.inr rfl

/-- **Entries that are copied** are in use, and change no other frame.  So the target is tidy
afterwards if it was before; by induction on the entries that are left. -/
theorem copyEntries_keeps (source target : Frame) (l : List (Fin entriesPerTable)) :
    (∀ f, f ≠ target → ∀ j, (p.copyEntries source target l).ram.read? f j = p.ram.read? f j)
      ∧ (p.Tidy target → (p.copyEntries source target l).Tidy target) := by
  induction l generalizing p with
  | nil => exact ⟨fun _ _ _ => rfl, id⟩
  | cons i rest ih =>
      rw [copyEntries]
      cases p.ram.read? source i with
      | none => exact ⟨fun _ _ _ => rfl, id⟩
      | some e =>
          by_cases hpresent : e.isPresent = true
          case neg =>
            simp only [if_neg hpresent]
            exact ih
          case pos =>
            obtain ⟨hother, htidy⟩ := ih (p := p.withEntry target i e)
            simp only [if_pos hpresent]
            refine ⟨fun f hf j => (hother f hf j).trans (read?_withEntry_of_ne hf e), fun tidy => ?_⟩
            refine htidy fun j e' hread => ?_
            rw [withEntry, Ram.read?_setEntry] at hread
            split at hread
            · obtain ⟨-, -, rfl⟩ := Option.map_eq_some_iff.mp hread
              exact Or.inl hpresent
            · exact tidy j e' hread

/-! ## The operations -/

/-- **What mapping a page does to entries.**  An entry of a table is written, which is found in the
directory or is a fresh one.  All laws about mappings and permissions are derived from this record, and
none of them looks at `map` again. -/
structure WritesPage (dirs : Finset Frame) (d : Frame) (v : VirtAddr) (target : Frame)
    (flags : PageFlags) (t : Frame) (p p' : Paging) : Prop where
  before : p.target? d v.directoryIndex = some t ∨ t ∉ p.tableFrames dirs
  evolves : Evolves dirs (fun t' j => t' = t ∧ j = v.tableIndex) p p'
  target?_eq : ∀ d' ∈ dirs, ∀ i,
    p'.target? d' i = if d' = d ∧ i = v.directoryIndex then some t else p.target? d' i
  ready : p'.Ready d v.directoryIndex flags
  leaf : p'.ram.read? t v.tableIndex = some (.ofFrame target (flags ||| .present))

/-- The region of the page has its table then, and no other region got one.  If it had one already,
nothing is inserted. -/
theorem WritesPage.regions_eq {target : Frame} (w : WritesPage dirs d v target flags t p p')
    (hd : d ∈ dirs) : p'.regions d = insert v.directoryIndex (p.regions d) := by
  ext i
  rw [mem_regions, Finset.mem_insert, mem_regions, w.target?_eq d hd]
  split
  case isTrue heq => simp [heq.2]
  case isFalse hne => simp [show i ≠ v.directoryIndex from fun heq => hne ⟨rfl, heq⟩]

/-- Who has the table that is written has it in the entry for the region of the page, and shares it
with the directory that the page is mapped in.  A fresh table is excluded, because nobody refers to it
yet. -/
theorem WritesPage.before_of_target? {d' target : Frame}
    (w : WritesPage dirs d v target flags t p p') (h : p.Spaces dirs) (hd : d ∈ dirs) (hd' : d' ∈ dirs)
    (ht : p.target? d' i = some t) :
    p.target? d v.directoryIndex = some t ∧ v.directoryIndex = i := by
  have hbefore : p.target? d v.directoryIndex = some t :=
    w.before.resolve_right fun hout => hout (mem_tableFrames.mpr ⟨d', hd', i, ht⟩)
  exact ⟨hbefore, h.region_eq d hd d' hd' _ _ t hbefore ht⟩

section

variable {range : FrameRange} {frames : FrameAllocator} {admits : Fault → Prop}

/-- A page is mapped where a table is found for it: the table is found first, and its entry is written
in the memory that results. -/
theorem Spaces.writesPage {directory : PageDirectory} (h : p.Spaces dirs)
    (hd : directory.frame ∈ dirs) (hdirs : dirs ⊆ lent) (htables : p.tableFrames dirs ⊆ lent)
    (hfor : TableFor p directory.frame v.directoryIndex flags lent t p' lent') (target : Frame) :
    WritesPage dirs directory.frame v target flags t p
      (p'.withEntry t v.tableIndex (.ofFrame target (flags ||| .present))) := by
  obtain ⟨h', ht, -, -⟩ := h.tableFor hd hdirs htables hfor
  obtain ⟨hbefore, hentry⟩ := h.target?_tableFor hdirs htables hfor
  have hne : directory.frame ≠ t := fun heq => h'.table_not_mem _ hd _ t ht (heq ▸ hd)
  constructor
  case before => exact hbefore.imp_right And.right
  case evolves => exact (Evolves.tableFor h hd hdirs htables hfor).trans (.withEntry h' hd ht _)
  case target?_eq =>
    intro d' hd' i
    exact (h'.target?_written hd ht _ hd' i).trans (hentry d' hd' i)
  case ready => exact (hfor.ready (hdirs hd)).withEntry hne _ _
  case leaf => exact read?_withEntry_self (h'.reaches_table _ hd _ t ht) _

namespace Housed

variable {directory : PageDirectory} (h : Housed range dirs p frames)
include h

/-- **A page is mapped**, or nothing happens: a refusal leaves memory as it was, and a success names
the table that was written. -/
theorem map_writesPage (hd : directory.frame ∈ dirs) (v : VirtAddr) (target : PhysAddr)
    (flags : PageFlags) :
    (p.map frames directory v target flags).Meets admits fun (result, p', _) =>
      match result with
      | .error _ => p' = p
      | .ok () => ∃ t, WritesPage dirs directory.frame v target.frame flags t p p' := by
  obtain ⟨lent, hlends, hdirs, htables⟩ := h.lends
  refine (h.spaces.map_cases hd hlends hdirs htables v target flags).imp ?_
  rintro ⟨result, p', frames'⟩ (⟨⟨cause, rfl⟩, rfl, -⟩ | ⟨rfl, t, p₁, lent', hfor, rfl, -⟩)
  · rfl
  · exact ⟨t, h.spaces.writesPage hd hdirs htables hfor target.frame⟩

/-- **A directory is created**, and it is tidy.  What there was stays as it was, because the directory
lies in a frame that belonged to nobody. -/
theorem createDirectory_evolves :
    (p.createDirectory frames).Meets admits fun (directory?, p', _) =>
      Evolves dirs written p p' ∧ ∀ d ∈ directory?, p'.Tidy d.frame := by
  obtain ⟨lent, hlends, hdirs, htables⟩ := h.lends
  refine (Paging.createDirectory_meets hlends).imp ?_
  rintro ⟨directory?, p', frames'⟩ hcreated
  cases directory? with
  | none =>
      obtain ⟨rfl, -⟩ := hcreated
      exact ⟨.refl .., nofun⟩
  | some d =>
      obtain ⟨hfresh, -, -, hp'⟩ := hcreated
      -- without a kernel's directory no entry is copied
      obtain ⟨source, l, rfl⟩ : ∃ source l,
          p' = (p.withZeroed d.frame).copyEntries source d.frame l := by
        cases hk : p.kernel? with
        | none => exact ⟨d.frame, [], by rw [hp', hk]; rfl⟩
        | some kernel => exact ⟨kernel.frame, _, by rw [hp', hk]⟩
      obtain ⟨hother, htidy⟩ := copyEntries_keeps (p := p.withZeroed d.frame) source d.frame l
      refine ⟨.of_fresh hdirs htables hfresh fun g hne j => ?_, ?_⟩
      · exact (hother g hne j).trans (read?_withZeroed_of_ne hne)
      · rintro _ ⟨⟩
        exact htidy (tidy_withZeroed p d.frame)

end Housed

end

end Paging

end TinyKernel
