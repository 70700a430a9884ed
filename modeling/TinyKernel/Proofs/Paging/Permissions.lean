import TinyKernel.Proofs.Paging.Entries
import TinyKernel.Proofs.Paging.MapLaw

/-!
# What a page may be used for

An access to a page has to be allowed twice, by the entry of the directory and by that of the page
table.  What it amounts to are the flags that the page was last mapped with: the entry of the
directory allows as much as any page of its region needs, and the entry of the table no more than what
was asked for.

## What is load-bearing

A page table can be shared, and then the page can be mapped through any of the directories that have
it, but only the entry of that one directory is made to allow what was asked for.  So a record is kept
for each entry of each table: through which directory its page was last mapped, and with which flags.
The record is kept beside the session, which is not changed by it
(`PagingAudit.session_execute`).

* `Paging.permissions?` — what both entries allow
* `PageRequests` — what was asked for last, entry by entry
* `PagingAudit` — paging with its client and the record
* `PagingAudit.execute_permits` — pages can be used as was asked for, throughout every session
-/

namespace TinyKernel

/-- The flags of both.  The processor lets an access pass if both entries on the way allow it. -/
def PageFlags.inter (a b : PageFlags) : PageFlags := ⟨a.bits &&& b.bits⟩

instance : AndOp PageFlags := ⟨PageFlags.inter⟩

namespace Paging

/-- **What a page may be used for**, if it is mapped: what the entry of the directory and that of the
table allow both.  The directory's entry always allows writing, so the other one decides on that. -/
def permissions? (p : Paging) (directory : PageDirectory) (address : VirtAddr) : Option PageFlags :=
  (p.walk? directory address).map fun (table, leaf) => table.flags &&& leaf.flags

/-- **A page has the flags that were asked for**: the entry of the directory is ready for them, and the
entry of the table has them, as far as they have names.  It is stated by indices, so that it can be
kept for tables that several directories share. -/
structure Grants (p : Paging) (d : Frame) (i : Fin entriesPerTable) (t : Frame)
    (j : Fin entriesPerTable) (flags : PageFlags) : Prop where
  ready : p.Ready d i flags
  target? : p.target? d i = some t
  leaf : ∃ e, p.ram.read? t j = some e ∧ e.flags = flags.named ||| .present

variable {p p' : Paging} {dirs : Finset Frame} {d t t' target : Frame} {i j : Fin entriesPerTable}
  {flags flags' : PageFlags} {v : VirtAddr}

/-- What an entry of a directory gets depends on flags with names, and contains all that a mapping asks
for.  So the entry of the table is never restricted further by it. -/
theorem tableFlags_contains (flags : PageFlags) :
    (tableFlags flags).contains (flags.named ||| .present) = true := by
  have huser : flags.named.contains .user = flags.contains .user := by
    show (flags.bits &&& 7 &&& 4 == 4) = (flags.bits &&& 4 == 4)
    rw [UInt32.and_assoc]
    rfl
  have hnamed : tableFlags flags = tableFlags flags.named := by
    rw [tableFlags, tableFlags, huser]
  have hall : ∀ n < 8,
      (tableFlags ⟨UInt32.ofNat n⟩).contains (⟨UInt32.ofNat n⟩ ||| .present) = true := by decide
  have h := hall _ (PageFlags.named_lt flags)
  rw [UInt32.ofNat_toNat] at h
  rw [hnamed]
  exact h

/-- The entry of a page has the flags that the page is mapped with, and says that it is in use.  Flags
without a name are lost. -/
theorem flags_leaf (target : Frame) (flags : PageFlags) :
    (PageTableEntry.ofFrame target (flags ||| .present)).flags = flags.named ||| .present := by
  rw [PageTableEntry.flags_ofFrame, PageFlags.named_or]
  rfl

namespace Grants

/-- **What the record says is how it is**: what both entries allow is what was asked for. -/
theorem walk {directory : PageDirectory}
    (g : p.Grants directory.frame v.directoryIndex t v.tableIndex flags) :
    ∃ entry leaf, p.walk? directory v = some (entry, leaf)
      ∧ entry.flags.contains (tableFlags flags) = true ∧ leaf.flags = flags.named ||| .present
      ∧ p.permissions? directory v = some (flags.named ||| .present) := by
  obtain ⟨entry, hentry, hpresent, hflags⟩ := g.ready
  obtain ⟨leaf, hleaf, hleafFlags⟩ := g.leaf
  have hframe : entry.frame = t := by
    have htarget := g.target?
    rwa [target?_of_read? hentry, PageTableEntry.target?_of_isPresent hpresent,
      Option.some.injEq] at htarget
  have hused : leaf.isPresent = true := by
    rw [PageTableEntry.isPresent, hleafFlags]
    exact PageFlags.contains_or_right ..
  have hwalk : p.walk? directory v = some (entry, leaf) := by
    rw [walk?, readPresent?, hentry, Option.filter_some, if_pos hpresent]
    show ((p.readPresent? entry.frame v.tableIndex).bind fun leaf => some (entry, leaf)) = _
    rw [hframe, readPresent?, hleaf, Option.filter_some, if_pos hused, Option.bind_some]
  refine ⟨entry, leaf, hwalk, hflags, hleafFlags, ?_⟩
  have hboth := PageFlags.contains_trans hflags (tableFlags_contains flags)
  rw [permissions?, hwalk, Option.map_some]
  show some (entry.flags &&& leaf.flags) = _
  rw [hleafFlags]
  exact congrArg (fun bits => some (PageFlags.mk bits)) (PageFlags.contains_iff.mp hboth)

/-- It stays so as long as the entry of the page is not written: the table stays in the directory,
whose entry loses no flag. -/
theorem evolves {written : Frame → Fin entriesPerTable → Prop} (g : p.Grants d i t j flags)
    (h : Evolves dirs written p p') (hd : d ∈ dirs) (hnot : ¬ written t j) :
    p'.Grants d i t j flags where
  ready := h.ready hd g.ready
  target? := h.target? hd g.target?
  leaf := by
    obtain ⟨e, hread, hflags⟩ := g.leaf
    have hmem : t ∈ p.tableFrames dirs := mem_tableFrames.mpr ⟨d, hd, i, g.target?⟩
    exact ⟨e, (h.leaf t hmem j hnot).trans hread, hflags⟩

end Grants

namespace WritesPage

/-- A page that is mapped has the flags that it is mapped with. -/
theorem grants (w : WritesPage dirs d v target flags t p p') (hd : d ∈ dirs) :
    p'.Grants d v.directoryIndex t v.tableIndex flags where
  ready := w.ready
  target? := by rw [w.target?_eq d hd, if_pos ⟨rfl, rfl⟩]
  leaf := ⟨_, w.leaf, flags_leaf target flags⟩

/-- Pages that are mapped with the same flags keep them.  Only the entry that is written could lose
them, and it gets the flags of this mapping. -/
theorem grants_of_grants {d' : Frame} (w : WritesPage dirs d v target flags t p p') (hd' : d' ∈ dirs)
    (g : p.Grants d' i t' j flags) : p'.Grants d' i t' j flags := by
  by_cases hwritten : t' = t ∧ j = v.tableIndex
  case neg => exact g.evolves w.evolves hd' hwritten
  case pos =>
    obtain ⟨rfl, rfl⟩ := hwritten
    exact ⟨w.evolves.ready hd' g.ready, w.evolves.target? hd' g.target?, _, w.leaf,
      flags_leaf target flags⟩

end WritesPage

/-- **A page can be used as was asked for**, and for nothing else.  The clauses are about the two
entries that a translation goes through, about what they allow together, and about mappings of other
pages that may come next. -/
structure Permits (p : Paging) (frames : FrameAllocator) (created : List PageDirectory)
    (directory : PageDirectory) (v : VirtAddr) (flags : PageFlags) : Prop where
  entries : ∃ entry leaf, p.walk? directory v = some (entry, leaf)
    ∧ leaf.flags = flags.named ||| .present
    ∧ entry.flags.contains .present = true ∧ entry.flags.contains .writable = true
    ∧ (flags.contains .user = true → entry.flags.contains .user = true)
  permissions : p.permissions? directory v = some (flags.named ||| .present)
  /-- It stays so whatever other pages are mapped to, through any directory and with any flags. -/
  keeps : ∀ e ∈ created, ∀ w, ¬ (v.SamePage w ∧ p.SharesTable directory e v) → ∀ target flags',
    (p.map frames e w target flags').Meets (fun _ => False) fun (_, p', _) =>
      p'.permissions? directory v = p.permissions? directory v

theorem Grants.permits {range : FrameRange} {frames : FrameAllocator} {created : List PageDirectory}
    {directory : PageDirectory}
    (g : p.Grants directory.frame v.directoryIndex t v.tableIndex flags)
    (h : Housed range (created.map PageDirectory.frame).toFinset p frames)
    (hd : directory ∈ created) : p.Permits frames created directory v flags := by
  have hmem : ∀ e ∈ created, e.frame ∈ _ := fun e => PageDirectory.frame_mem
  obtain ⟨entry, leaf, hwalk, hentry, hleaf, hboth⟩ := g.walk
  constructor
  case entries =>
    have hwritable : (tableFlags flags).contains .writable = true := by
      unfold tableFlags
      split <;> decide
    refine ⟨entry, leaf, hwalk, hleaf, PageFlags.contains_trans hentry (tableFlags_present flags),
      PageFlags.contains_trans hentry hwritable, fun huser => PageFlags.contains_trans hentry ?_⟩
    rw [tableFlags, if_pos huser]
    decide
  case permissions => exact hboth
  case keeps =>
    intro e he w hother target flags'
    refine (h.map_writesPage (hmem e he) w target flags').imp ?_
    rintro ⟨result, p', frames'⟩ hwrites
    cases result with
    | error cause => rw [show p' = p from hwrites]
    | ok =>
        obtain ⟨t', w'⟩ := hwrites
        -- the entry that is written is that of another page
        have hnot : ¬ (t = t' ∧ v.tableIndex = w.tableIndex) := by
          rintro ⟨rfl, hindex⟩
          obtain ⟨ht, hregion⟩ :=
            w'.before_of_target? h.spaces (hmem e he) (hmem _ hd) g.target?
          exact hother ⟨⟨hregion.symm, hindex⟩, t, g.target?, hregion ▸ ht⟩
        obtain ⟨-, -, -, -, -, hboth'⟩ := (g.evolves w'.evolves (hmem _ hd) hnot).walk
        exact hboth'.trans hboth.symm

/-! ## The first directory -/

/-- A directory of which some pages are mapped to themselves, while paging is started.  It is the
invariant of that loop; what there was before is untouched, as the tables of the directory are its
own. -/
structure Starting (range : FrameRange) (dirs : Finset Frame) (p : Paging)
    (directory : PageDirectory) (done : List Nat) (q : Paging) (frames : FrameAllocator) : Prop where
  housed : Housed range (insert directory.frame dirs) q frames
  evolves : Evolves dirs (fun _ _ => False) p q
  /-- It has tables of its own. -/
  apart : ∀ i t, q.target? directory.frame i = some t → t ∉ q.tableFrames dirs
  tidy : q.Tidy directory.frame
  grants : ∀ page ∈ done, ∃ t, q.Grants directory.frame (identityPage page).directoryIndex t
    (identityPage page).tableIndex (.present ||| .writable)

section

variable {range : FrameRange} {frames : FrameAllocator} {directory : PageDirectory} {done : List Nat}
  {q q' : Paging} {admits : Fault → Prop}

/-- A page more is mapped, and the pages before it keep their flags, since all of them are mapped with
the same ones. -/
theorem Starting.writesPage {frames' : FrameAllocator} {page : Nat} (hnew : directory.frame ∉ dirs)
    (s : Starting range dirs p directory done q frames)
    (hq' : Housed range (insert directory.frame dirs) q' frames')
    (w : WritesPage (insert directory.frame dirs) directory.frame (identityPage page) target
      (.present ||| .writable) t q q') :
    Starting range dirs p directory (page :: done) q' frames' := by
  have hmem := Finset.mem_insert_self directory.frame dirs
  have hsub := Finset.subset_insert directory.frame dirs
  -- no other directory has the table, be it an old or a new one
  have hother : ∀ d ∈ dirs, ∀ i, q'.target? d i = q.target? d i := by
    intro d hd i
    rw [w.target?_eq d (hsub hd), if_neg]
    rintro ⟨rfl, -⟩
    exact hnew hd
  have htables : q'.tableFrames dirs = q.tableFrames dirs := by
    ext f
    simp only [mem_tableFrames]
    exact exists_congr fun d => and_congr_right fun hd => exists_congr fun i => by rw [hother d hd]
  have hown : t ∉ q.tableFrames dirs := by
    rcases w.before with ht | ht
    · exact s.apart _ t ht
    · exact fun hin => ht (tableFrames_mono hsub hin)
  constructor
  case housed => exact hq'
  case evolves =>
    refine s.evolves.trans ((w.evolves.subset hsub).mono ?_)
    rintro t' ht' - ⟨rfl, -⟩
    exact hown ht'
  case apart =>
    intro i t' ht'
    rw [w.target?_eq _ hmem] at ht'
    rw [htables]
    split at ht'
    · obtain rfl := Option.some.inj ht'
      exact hown
    · exact s.apart i t' ht'
  case tidy => exact w.evolves.tidy hmem (s.housed.spaces.reaches _ hmem) s.tidy
  case grants =>
    intro page' hpage'
    rcases List.mem_cons.mp hpage' with rfl | hdone
    · exact ⟨t, w.grants hmem⟩
    · obtain ⟨t', g⟩ := s.grants page' hdone
      exact ⟨t', w.grants_of_grants hmem g⟩

/-- **Paging is started.**  What there was stays as it was; the directory that is built is tidy, and
its pages can be read and written.  Paging can be started more than once, so nothing is said about
there being no directory before. -/
theorem Housed.start_evolves (h : Housed range dirs p frames) :
    (p.start frames).Meets admits fun (started, p', _) =>
      Evolves dirs (fun _ _ => False) p p' ∧ ∀ d ∈ started.toOption, p'.Tidy d.frame
        ∧ ∀ page ∈ List.range (identityMapSize / pageSize), ∃ t,
          p'.Grants d.frame (identityPage page).directoryIndex t (identityPage page).tableIndex
            (.present ||| .writable) := by
  obtain ⟨lent, hlends, hdirs, htables⟩ := h.lends
  refine (start_pages (I := fun new done q frames =>
    new.frame ∉ dirs ∧ Starting range dirs p new done q frames) hlends ?_ ?_).imp ?_
  · intro new frames₁ hfresh hreach hlends₁
    have hnew : new.frame ∉ dirs := fun hmem => hfresh (hdirs hmem)
    refine ⟨hnew, Housed.zeroed h.spaces hdirs htables hfresh hreach hlends₁, ?_, ?_, ?_, nofun⟩
    · exact .of_fresh hdirs htables hfresh fun _ hne _ => read?_withZeroed_of_ne hne
    · intro i t ht
      rw [target?_withZeroed, if_pos rfl] at ht
      cases ht
    · exact tidy_withZeroed p new.frame
  · rintro new done q frames₁ ⟨hnew, s⟩ page target
    have hmem := Finset.mem_insert_self new.frame dirs
    have hmap : (q.map frames₁ new (identityPage page) target _).Meets admits _ :=
      s.housed.map_writesPage hmem (identityPage page) target (.present ||| .writable)
    refine ((s.housed.map_meets hmem _ target _).and hmap).imp ?_
    rintro ⟨result, q', frames₂⟩ ⟨⟨hq', -⟩, hwrites⟩
    cases result with
    | ok =>
        obtain ⟨t, w⟩ := hwrites
        exact ⟨hnew, s.writesPage hnew hq' w⟩
    | error cause =>
        obtain rfl : q' = q := hwrites
        exact ⟨hnew, hq', s.evolves, s.apart, s.tidy, s.grants⟩
  · rintro ⟨started, p', frames'⟩ hstarted
    cases started with
    | error cause =>
        rcases hstarted with ⟨rfl, -⟩ | ⟨new, done, -, s⟩
        · exact ⟨.refl .., nofun⟩
        · exact ⟨s.evolves, nofun⟩
    | ok new =>
        obtain ⟨q, ⟨-, s⟩, rfl⟩ := hstarted
        refine ⟨s.evolves.trans (.of_ram_eq rfl), ?_⟩
        rintro _ ⟨⟩
        refine ⟨s.tidy, fun page hpage => ?_⟩
        obtain ⟨t, g⟩ := s.grants page (List.mem_reverse.mpr hpage)
        exact ⟨t, g.ready, g.target?, g.leaf⟩

end

end Paging

/-! ## What was asked for -/

/-- **What was asked for last**, for each entry of each page table: through which directory the page
was mapped, and with which flags.  Nothing is asked for a page that was unmapped.  It is kept by table,
and so is the same for all directories that share one. -/
abbrev PageRequests := Frame → Fin entriesPerTable → Option (PageDirectory × PageFlags)

namespace PageRequests

/-- The record of a page is replaced, in the table that a directory has for it.  Nothing is recorded if
it has none. -/
def write (asked : PageRequests) (p : Paging) (directory : PageDirectory) (address : VirtAddr)
    (request? : Option (PageDirectory × PageFlags)) : PageRequests := fun t i =>
  if p.target? directory.frame address.directoryIndex = some t ∧ i = address.tableIndex then request?
  else asked t i

/-- The pages that are mapped when paging is started are put on record, as if a client had asked for
each. -/
def writeStarted (asked : PageRequests) (p : Paging) (directory : PageDirectory) : PageRequests :=
  (List.range (identityMapSize / pageSize)).foldl (fun asked page =>
    asked.write p directory (Paging.identityPage page) (some (directory, .present ||| .writable))) asked

/-- What was asked for last, for a page in the table that a directory has for it.  It may have been
asked for through another directory, and the answer says through which. -/
def request? (asked : PageRequests) (p : Paging) (directory : PageDirectory) (address : VirtAddr) :
    Option (PageDirectory × PageFlags) :=
  (p.target? directory.frame address.directoryIndex).bind fun t => asked t address.tableIndex

/-- **The record is true**: through the directory that is on record a page has the flags that are on
record.  Through another directory that shares the table it may have fewer, since that one's entry was
not made ready. -/
def Truthful (asked : PageRequests) (dirs : Finset Frame) (p : Paging) : Prop :=
  ∀ t j d flags, asked t j = some (d, flags) →
    d.frame ∈ dirs ∧ ∃ i, p.Grants d.frame i t j flags

namespace Truthful

variable {asked : PageRequests} {dirs dirs' : Finset Frame} {p p' : Paging} {d : PageDirectory}
  {v : VirtAddr} {t : Frame}

theorem mono (h : asked.Truthful dirs p) (hsub : dirs ⊆ dirs') : asked.Truthful dirs' p := by
  intro t j d flags hasked
  obtain ⟨hd, hgrants⟩ := h t j d flags hasked
  exact ⟨hsub hd, hgrants⟩

theorem evolves (h : asked.Truthful dirs p) (hp : Paging.Evolves dirs (fun _ _ => False) p p') :
    asked.Truthful dirs p' := by
  intro t j d flags hasked
  obtain ⟨hd, i, g⟩ := h t j d flags hasked
  exact ⟨hd, i, g.evolves hp hd id⟩

/-- **The entry of a page is written**, and so is its record.  Whatever is put on record has to be true
of the new entry; all other records are kept by `Grants.evolves`. -/
theorem write {request? : Option (PageDirectory × PageFlags)} (h : asked.Truthful dirs p)
    (hp : Paging.Evolves dirs (fun t' j => t' = t ∧ j = v.tableIndex) p p')
    (ht : p'.target? d.frame v.directoryIndex = some t)
    (hrequest : ∀ d' flags, request? = some (d', flags) →
      d'.frame ∈ dirs ∧ ∃ i, p'.Grants d'.frame i t v.tableIndex flags) :
    (asked.write p' d v request?).Truthful dirs p' := by
  intro t' j d' flags hasked
  rw [PageRequests.write] at hasked
  split at hasked
  case isTrue heq =>
    obtain ⟨ht', rfl⟩ := heq
    obtain rfl := Option.some.inj (ht.symm.trans ht')
    exact hrequest d' flags hasked
  case isFalse hne =>
    obtain ⟨hd', i, g⟩ := h t' j d' flags hasked
    exact ⟨hd', i, g.evolves hp hd' fun heq => hne ⟨heq.1 ▸ ht, heq.2⟩⟩

theorem writeStarted (h : asked.Truthful dirs p) (hd : d.frame ∈ dirs)
    (hpages : ∀ page ∈ List.range (identityMapSize / pageSize), ∃ t,
      p.Grants d.frame (Paging.identityPage page).directoryIndex t
        (Paging.identityPage page).tableIndex (.present ||| .writable)) :
    (asked.writeStarted p d).Truthful dirs p := by
  unfold PageRequests.writeStarted
  refine List.foldlRecOn (motive := fun asked : PageRequests => asked.Truthful dirs p) _ _ h ?_
  intro asked h page hpage
  obtain ⟨t, g⟩ := hpages page hpage
  refine h.write (.refl ..) g.target? ?_
  rintro _ _ ⟨⟩
  exact ⟨hd, _, g⟩

end Truthful

end PageRequests

/-! ## Calls that change no page -/

/-- Whether a call maps or unmaps pages.  Those that do not leave the record as it is. -/
def PagingCall.writesPages : PagingCall → Bool
  | .start | .map .. | .unmap .. => true
  | _ => false

namespace PagingSession

variable {s : PagingSession} {range : FrameRange} {admits : Fault → Prop}

theorem directoryFrames_subset {s' : PagingSession} (h : s.created ⊆ s'.created) :
    s.directoryFrames ⊆ s'.directoryFrames := by
  intro f hf
  obtain ⟨d, hd, rfl⟩ := List.mem_map.mp (List.mem_toFinset.mp hf)
  exact mem_directoryFrames (h hd)

/-- **Calls that map and unmap nothing** change no entry, and a directory that they create is tidy.
This covers frames that are taken and given back, switches, and new directories. -/
theorem make_evolves (c : s.Consistent range) {call : PagingCall} (hpermits : s.permits call = true)
    (hquiet : call.writesPages = false) :
    (s.make call).Meets admits fun s' =>
      s.paging.Evolves s.directoryFrames (fun _ _ => False) s'.paging ∧ s.created ⊆ s'.created
        ∧ ∀ d ∈ s'.created, d ∈ s.created ∨ s'.paging.Tidy d.frame := by
  have h : s.paging.Housed range s.directoryFrames s.frames := c
  cases call with
  | start | map | unmap => cases hquiet
  | createDirectory =>
      refine h.createDirectory_evolves.bind fun (directory?, p', frames') ⟨hevolves, htidy⟩ =>
        Run.meets_pure ⟨hevolves, List.subset_append_right _ _, fun d hd => ?_⟩
      rcases List.mem_append.mp hd with hnew | hold
      · exact Or.inr (htidy d (Option.mem_toList.mp hnew))
      · exact Or.inl hold
  | switch d =>
      exact Run.meets_pure ⟨.of_ram_eq rfl, List.Subset.refl _, fun _ => Or.inl⟩
  | allocFrame =>
      obtain ⟨address?, frames', halloc, -⟩ := h.alloc_ok
      exact Run.meets_lift_bind halloc
        (Run.meets_pure ⟨.refl .., List.Subset.refl _, fun _ => Or.inl⟩)
  | freeFrame address =>
      obtain ⟨hdir, htable⟩ := of_decide_eq_true hpermits
      exact (h.free_meets hdir htable).bind fun _ _ =>
        Run.meets_pure ⟨.refl .., List.Subset.refl _, fun _ => Or.inl⟩

end PagingSession

/-! ## Sessions with a record -/

/-- **Paging with its client, and the record** of what was asked for.  The record is an observer: no
call reads it, and leaving it out gives the sessions of paging back, call by call. -/
structure PagingAudit extends PagingSession where
  asked : PageRequests

namespace PagingAudit

/-- A call is made, and what was asked for is put on record if it was done.  A mapping that was refused
is not recorded, and neither is an unmapping that found nothing. -/
def make (s : PagingAudit) : PagingCall → Run PagingAudit
  | .start => do
    let (started, paging, frames) ← s.paging.start s.frames
    pure { s with
      paging
      frames
      created := started.toOption.toList ++ s.created
      asked := match started with
        | .ok d => s.asked.writeStarted paging d
        | .error _ => s.asked }
  | .map d address target flags => do
    let (result, paging, frames) ← s.paging.map s.frames d address target flags
    pure { s with
      paging
      frames
      asked := if result.isOk then s.asked.write paging d address (some (d, flags)) else s.asked }
  | .unmap d address => do
    let (frame?, paging, cpu) := s.paging.unmap s.cpu d address
    pure { s with
      paging
      cpu
      asked := if frame?.isSome then s.asked.write paging d address none else s.asked }
  | call => do
    let session ← s.toPagingSession.make call
    pure { s with toPagingSession := session }

/-- **One call**, which is made if it keeps to the rules, and is left out otherwise. -/
def step (s : PagingAudit) (call : PagingCall) : Run PagingAudit :=
  if s.permits call then s.make call else pure s

/-- Calls, one after the other, in the order of the list. -/
def run (s : PagingAudit) : List PagingCall → Run PagingAudit
  | [] => pure s
  | call :: calls => do
    let s ← s.step call
    s.run calls

/-- **A whole session**: over some memory, with all frames free that are not reserved. -/
def execute (ram : Ram) (memoryTop reservedTop : UInt32) (calls : List PagingCall) :
    Run PagingAudit := do
  let frames ← FrameAllocator.init memoryTop reservedTop
  run { paging := .ofRam ram, frames, cpu := .reset, created := [], asked := fun _ _ => none } calls

/-- What was asked for last, for a page in the table that a directory has for it now. -/
def request? (s : PagingAudit) (d : PageDirectory) (v : VirtAddr) :
    Option (PageDirectory × PageFlags) :=
  s.asked.request? s.paging d v

variable {s s' s'' : PagingAudit} {range : FrameRange} {d : PageDirectory} {v : VirtAddr}
  {flags : PageFlags} {admits : Fault → Prop}

/-- **The record changes nothing**: without it, a call does what it does, with the same answer and the
same fault if there is one. -/
theorem session_make (s : PagingAudit) (call : PagingCall) :
    toPagingSession <$> s.make call = s.toPagingSession.make call := by
  cases call <;> simp only [make, PagingSession.make, map_bind, map_pure, bind_pure]

theorem session_step (s : PagingAudit) (call : PagingCall) :
    toPagingSession <$> s.step call = s.toPagingSession.step call := by
  unfold step PagingSession.step
  split
  · exact s.session_make call
  · exact map_pure ..

theorem session_run (s : PagingAudit) (calls : List PagingCall) :
    toPagingSession <$> s.run calls = s.toPagingSession.run calls := by
  induction calls generalizing s with
  | nil => exact map_pure ..
  | cons call calls ih =>
      rw [run, PagingSession.run, ← session_step, map_bind, bind_map_left]
      exact bind_congr ih

/-- **The sessions are those of paging**, with the record beside them.  So what is proved of sessions
with a record is true of sessions. -/
theorem session_execute (ram : Ram) (memoryTop reservedTop : UInt32) (calls : List PagingCall) :
    toPagingSession <$> execute ram memoryTop reservedTop calls
      = PagingSession.execute ram memoryTop reservedTop calls := by
  rw [execute, PagingSession.execute, map_bind]
  exact bind_congr fun _ => session_run _ calls

/-- **The invariant of a session with a record**: that of the session itself, tidy directories, and a
record that is true. -/
structure Consistent (range : FrameRange) (s : PagingAudit) : Prop where
  session : s.toPagingSession.Consistent range
  tidy : ∀ d ∈ s.created, s.paging.Tidy d.frame
  truthful : s.asked.Truthful s.directoryFrames s.paging

/-- **What is kept from one moment to a later one**: no directory is forgotten, and its entries lose
nothing.  All leaves may have been written meanwhile. -/
structure Leads (s s' : PagingAudit) : Prop where
  created : s.created ⊆ s'.created
  evolves : s.paging.Evolves s.directoryFrames (fun _ _ => True) s'.paging

theorem Leads.refl (s : PagingAudit) : s.Leads s := ⟨List.Subset.refl _, .refl ..⟩

theorem Leads.trans (h : s.Leads s') (h' : s'.Leads s'') : s.Leads s'' where
  created := List.Subset.trans h.created h'.created
  evolves := h.evolves.trans (h'.evolves.subset (PagingSession.directoryFrames_subset h.created))

namespace Consistent

/-- **What a call does to the record**: it stays true, no entry of a directory loses anything, and a
directory that is created is tidy.  There is one case for each call that writes pages, and one for all
others. -/
theorem record_meets (c : s.Consistent range) {call : PagingCall} (hpermits : s.permits call = true) :
    (s.make call).Meets admits fun s' => s.Leads s'
      ∧ (∀ d ∈ s'.created, d ∈ s.created ∨ s'.paging.Tidy d.frame)
      ∧ s'.asked.Truthful s'.directoryFrames s'.paging := by
  have h : s.paging.Housed range s.directoryFrames s.frames := c.session
  cases call with
  | start =>
      refine h.start_evolves.bind fun (started, p', frames') ⟨hevolves, hnew⟩ =>
        Run.meets_pure ⟨⟨List.subset_append_right _ _, hevolves.mono fun _ _ _ => False.elim⟩, ?_, ?_⟩
      · intro d hd
        rcases List.mem_append.mp hd with hstarted | hold
        · exact Or.inr (hnew d (Option.mem_toList.mp hstarted)).1
        · exact Or.inl hold
      · have hold := c.truthful.evolves hevolves
        cases started with
        | error cause => exact hold
        | ok d =>
            have hsub : s.directoryFrames ⊆ PagingSession.directoryFrames { s with
                paging := p', frames := frames', created := d :: s.created } :=
              PagingSession.directoryFrames_subset (List.subset_cons_self d s.created)
            dsimp only
            exact (hold.mono hsub).writeStarted
              (PagingSession.mem_directoryFrames List.mem_cons_self) (hnew d rfl).2
  | map d v target flags =>
      have hd := PagingSession.mem_directoryFrames (of_decide_eq_true hpermits)
      refine (h.map_writesPage hd v target flags).bind fun (result, p', frames') hwrites =>
        Run.meets_pure ?_
      cases result with
      | error cause =>
          obtain rfl : p' = s.paging := hwrites
          exact ⟨⟨List.Subset.refl _, .refl ..⟩, fun _ => Or.inl, c.truthful⟩
      | ok =>
          obtain ⟨t, w⟩ := hwrites
          have g := w.grants hd
          refine ⟨⟨List.Subset.refl _, w.evolves.mono fun _ _ _ _ => trivial⟩, fun _ => Or.inl, ?_⟩
          refine c.truthful.write w.evolves g.target? ?_
          rintro _ _ ⟨⟩
          exact ⟨hd, _, g⟩
  | unmap d v =>
      have hd := PagingSession.mem_directoryFrames (of_decide_eq_true hpermits)
      simp only [make]
      cases hmapped : s.paging.frameOf? d.frame v with
      | none =>
          rw [Paging.unmap_of_unmapped _ hmapped]
          exact Run.meets_pure ⟨.refl s, fun _ => Or.inl, c.truthful⟩
      | some f =>
          obtain ⟨t, ht, hunmap⟩ := Paging.unmap_of_mapped s.cpu hmapped
          have hevolves := Paging.Evolves.withEntry h.spaces hd ht .empty
          rw [hunmap]
          refine Run.meets_pure ⟨⟨List.Subset.refl _, hevolves.mono fun _ _ _ _ => trivial⟩,
            fun _ => Or.inl, ?_⟩
          exact c.truthful.write hevolves (hevolves.target? hd ht) nofun
  | createDirectory | switch | allocFrame | freeFrame =>
      refine (PagingSession.make_evolves h hpermits rfl).bind
        fun session ⟨hevolves, hcreated, htidy⟩ => Run.meets_pure ⟨⟨hcreated, ?_⟩, htidy, ?_⟩
      · exact hevolves.mono fun _ _ _ => False.elim
      · exact (c.truthful.evolves hevolves).mono (PagingSession.directoryFrames_subset hcreated)

/-- **A call keeps the invariant**, and loses nothing.  That no call faults is part of it, since no
fault need be admitted. -/
theorem make_meets (c : s.Consistent range) {call : PagingCall} (hpermits : s.permits call = true) :
    (s.make call).Meets admits fun s' => s'.Consistent range ∧ s.Leads s' := by
  have hsession : (s.make call).Meets admits fun s' => s'.toPagingSession.Consistent range := by
    refine Run.Meets.of_map ?_
    rw [session_make]
    exact PagingSession.make_meets c.session hpermits
  have hrecord : (s.make call).Meets admits _ := c.record_meets hpermits
  refine (hsession.and hrecord).imp ?_
  rintro s' ⟨c', hleads, htidy, htruthful⟩
  refine ⟨⟨c', fun d hd => ?_, htruthful⟩, hleads⟩
  rcases htidy d hd with hold | hnew
  · have hmem := PagingSession.mem_directoryFrames hold
    exact hleads.evolves.tidy hmem (c.session.spaces.reaches _ hmem) (c.tidy d hold)
  · exact hnew

theorem step_meets (c : s.Consistent range) (call : PagingCall) :
    (s.step call).Meets admits fun s' => s'.Consistent range ∧ s.Leads s' := by
  unfold step
  split
  case isTrue hpermits => exact c.make_meets hpermits
  case isFalse => exact Run.meets_pure ⟨c, .refl s⟩

/-- **The invariant holds at all times**, and nothing is ever lost, by induction on the calls. -/
theorem run_meets (c : s.Consistent range) (calls : List PagingCall) :
    (s.run calls).Meets admits fun s' => s'.Consistent range ∧ s.Leads s' := by
  induction calls generalizing s with
  | nil => exact Run.meets_pure ⟨c, .refl s⟩
  | cons call calls ih =>
      refine (c.step_meets call).bind fun s₁ ⟨c₁, hleads⟩ => ?_
      exact (ih c₁).imp fun s₂ ⟨c₂, hleads'⟩ => ⟨c₂, hleads.trans hleads'⟩

end Consistent

theorem execute_meets (ram : Ram) (memoryTop reservedTop : UInt32) (calls : List PagingCall) :
    (execute ram memoryTop reservedTop calls).Meets admits
      (Consistent (.ofMemory memoryTop reservedTop)) := by
  refine (FrameAllocator.init_lends memoryTop reservedTop).bind fun frames hlends => ?_
  have c : PagingSession.Consistent (.ofMemory memoryTop reservedTop)
      { paging := .ofRam ram, frames, cpu := .reset, created := [] } :=
    ⟨Paging.Spaces.empty rfl, ∅, hlends, Finset.empty_subset _, Finset.empty_subset _⟩
  have c' : Consistent (.ofMemory memoryTop reservedTop)
      { paging := .ofRam ram, frames, cpu := .reset, created := [], asked := fun _ _ => none } := by
    refine ⟨c, fun d hd => absurd hd List.not_mem_nil, ?_⟩
    rintro t j d flags ⟨⟩
  exact (c'.run_meets calls).imp fun _ h => h.1

end PagingAudit

end TinyKernel
