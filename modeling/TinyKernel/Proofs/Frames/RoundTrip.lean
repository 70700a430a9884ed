import Mathlib.Data.List.ReduceOption
import TinyKernel.Proofs.Frames.Borrowing
import TinyKernel.Proofs.Frames.FreeSet

/-!
# Frames that are taken and given back

However many frames are taken in a row, and in whatever order they come back, the allocator ends in
the state that it started from: the same words, the same count and the same hint.

## What is load-bearing

Between the two the hint goes its own way, up with the frames that are taken at it and down with
those that come back below it.  So the run is followed by a debt: which frames are still owed, on top
of those that were lent out before, and that the state is one that is reached by borrowing.  A debt
of nothing leaves one state only.

* `FrameAllocator.Owes` — the frames that are still to come back
* `FrameAllocator.Owes.take`, `FrameAllocator.Owes.repay` — they are taken, and they come back
* `FrameAllocator.run_returns_frames` — the round trip, from every state that is reached
-/

namespace TinyKernel

namespace FrameAllocator

variable {a a₀ a' : FrameAllocator} {free : Finset Nat} {range : FrameRange}
  {lent₀ : Finset Frame} {owed owed' : List Frame} {address : PhysAddr} {admits : Fault → Prop}

/-! ## What is lent out -/

/-- Every state lends out the frames that are tracked and neither reserved nor free.  A session that
starts here has loans to compare with. -/
theorem Represents.exists_lends (r : Represents a free) :
    ∃ lent, Lends a ⟨a.reserved, a.total⟩ lent := by
  have hinj : Function.Injective fun f : Frame => f.index.toNat :=
    fun f g hfg => Frame.index_toNat_inj.mp hfg
  refine ⟨(Finset.Ico a.reserved a.total \ free).preimage _ hinj.injOn, rfl, rfl, free, r, ?_⟩
  intro f
  rw [Finset.mem_preimage, Finset.mem_sdiff, Finset.mem_Ico, and_assoc]

/-! ## How many are taken -/

/-- **As many frames are taken as are asked for**, as long as there are some.  Requests past that are
refused and change nothing. -/
theorem Represents.run_alloc_length (r : Represents a free) (k : Nat) :
    (a.run (List.replicate k .alloc)).Meets admits fun (taken, _) =>
      taken.reduceOption.length = min k a.freeCount := by
  induction k generalizing a free with
  | zero => exact Run.meets_pure (Nat.zero_min _).symm
  | succ k ih =>
      obtain ⟨address?, a', halloc, -, -, hframe⟩ := r.alloc_ok
      have hcall : a.perform .alloc = pure (address?, a') := by
        rw [perform, halloc]
        rfl
      rw [List.replicate_succ, run, hcall, pure_bind]
      cases address? with
      | none =>
          obtain ⟨rfl, rfl⟩ := hframe
          refine (ih r).bind ?_
          rintro ⟨taken, a''⟩ htaken
          refine Run.meets_pure ?_
          have hnone : a'.freeCount = 0 := r.freeCount_eq
          rw [hnone, Nat.min_zero] at htaken ⊢
          exact htaken
      | some address =>
          obtain ⟨f, -, hmem, -, -, r'⟩ := hframe
          refine (ih r').bind ?_
          rintro ⟨taken, a''⟩ htaken
          refine Run.meets_pure ?_
          have hcount : a'.freeCount + 1 = a.freeCount := by
            rw [r'.freeCount_eq, r.freeCount_eq, Finset.card_erase_add_one hmem]
          show (some address :: taken).reduceOption.length = min (k + 1) a.freeCount
          rw [List.reduceOption_cons_of_some, List.length_cons, htaken, ← hcount]
          exact (Nat.add_min_add_right k a'.freeCount 1).symm

/-! ## What is owed -/

/-- **The frames that are still to come back**: they were taken since a state that had others lent
out.  They are on a list and not in a set, since they are given back one by one, and each of them
once. -/
structure Owes (a₀ : FrameAllocator) (range : FrameRange) (lent₀ : Finset Frame)
    (owed : List Frame) (a : FrameAllocator) : Prop where
  lends₀ : Lends a₀ range lent₀
  lends : Lends a range (lent₀ ∪ owed.toFinset)
  borrows : Borrows a₀ a
  fresh : ∀ f ∈ owed, f ∉ lent₀
  nodup : owed.Nodup

namespace Owes

/-- At the start nothing is owed.  Any state will do as a start. -/
theorem nil (h : Lends a range lent₀) : Owes a range lent₀ [] a where
  lends₀ := h
  lends := by
    rw [List.toFinset_nil, Finset.union_empty]
    exact h
  borrows := .refl h
  fresh _ hf := by cases hf
  nodup := List.nodup_nil

/-- In which order frames are owed does not matter.  This is where the order of the returns is
forgotten, and the rest of the argument follows one list. -/
theorem perm (h : Owes a₀ range lent₀ owed a) (hperm : owed.Perm owed') :
    Owes a₀ range lent₀ owed' a where
  lends₀ := h.lends₀
  lends := by
    rw [← List.toFinset_eq_of_perm _ _ hperm]
    exact h.lends
  borrows := h.borrows
  fresh f hf := h.fresh f (hperm.mem_iff.mpr hf)
  nodup := hperm.nodup_iff.mp h.nodup

/-- **Who owes nothing** has the state that it started from, and not just the same frames lent out. -/
theorem eq_of_nil (h : Owes a₀ range lent₀ [] a) : a = a₀ := by
  have hlends := h.lends
  rw [List.toFinset_nil, Finset.union_empty] at hlends
  exact h.borrows.eq_of_lends h.lends₀ hlends

/-- A frame is taken, and then it is owed.  A request that is refused adds nothing. -/
theorem alloc_ok (h : Owes a₀ range lent₀ owed a) :
    ∃ address? a', a.alloc = .ok (address?, a')
      ∧ Owes a₀ range lent₀ ((address?.map PhysAddr.frame).toList ++ owed) a' := by
  obtain ⟨address?, a', halloc, hlends⟩ := h.lends.alloc_ok
  refine ⟨address?, a', halloc, ?_⟩
  cases address? with
  | none =>
      obtain ⟨rfl, -⟩ := h.lends.of_alloc_none halloc
      exact h
  | some address =>
      obtain ⟨f, rfl, hf, hlends⟩ := hlends
      rw [Finset.mem_union, not_or, List.mem_toFinset] at hf
      have hborrows := h.borrows.alloc halloc
      rw [Option.map_some, f.frame_start]
      refine ⟨h.lends₀, ?_, hborrows, ?_, List.nodup_cons.mpr ⟨hf.2, h.nodup⟩⟩
      · show Lends a' range (lent₀ ∪ (f :: owed).toFinset)
        rw [List.toFinset_cons, Finset.union_insert]
        exact hlends
      · intro g hg
        rcases List.mem_cons.mp hg with rfl | hg
        · exact hf.1
        · exact h.fresh g hg

/-- A frame comes back, and then it is not owed any more.  It is the first on the list, which is no
restriction (`Owes.perm`). -/
theorem free_meets (h : Owes a₀ range lent₀ (address.frame :: owed) a) :
    (a.free address).Meets admits (Owes a₀ range lent₀ owed) := by
  obtain ⟨hnot, hnodup⟩ := List.nodup_cons.mp h.nodup
  have hfresh : address.frame ∉ lent₀ := h.fresh _ List.mem_cons_self
  have hmem : address.frame ∈ lent₀ ∪ (address.frame :: owed).toFinset :=
    Finset.mem_union_right _ (List.mem_toFinset.mpr List.mem_cons_self)
  have hborrows : (a.free address).Meets admits (Borrows a₀) :=
    h.borrows.giveBack h.lends₀ h.lends hfresh hmem
  have hlends : (a.free address).Meets admits _ := h.lends.free_meets address
  refine (hborrows.and hlends).imp ?_
  rintro a' ⟨hborrows, hlends⟩
  refine ⟨h.lends₀, ?_, hborrows, fun f hf => h.fresh f (List.mem_cons_of_mem _ hf), hnodup⟩
  have hrest : address.frame ∉ lent₀ ∪ owed.toFinset := by
    rw [Finset.mem_union, List.mem_toFinset]
    exact not_or.mpr ⟨hfresh, hnot⟩
  rw [List.toFinset_cons, Finset.union_insert, Finset.erase_insert hrest] at hlends
  exact hlends

/-- **Frames are taken one after the other**: whatever was handed out is owed, on top of what was owed
before. -/
theorem take (h : Owes a₀ range lent₀ owed a) (k : Nat) :
    (a.run (List.replicate k .alloc)).Meets admits fun (taken, a') =>
      Owes a₀ range lent₀ (taken.reduceOption.map PhysAddr.frame ++ owed) a' := by
  induction k generalizing a owed with
  | zero => exact Run.meets_pure h
  | succ k ih =>
      obtain ⟨address?, a', halloc, h'⟩ := h.alloc_ok
      have hcall : a.perform .alloc = pure (address?, a') := by
        rw [perform, halloc]
        rfl
      rw [List.replicate_succ, run, hcall, pure_bind]
      refine (ih h').bind ?_
      rintro ⟨taken, a''⟩ h''
      refine Run.meets_pure ?_
      cases address? with
      | none => exact h''
      | some address => exact h''.perm List.perm_middle

/-- **Frames come back one after the other**, until none is owed.  Each comes back by an address in it,
which need not be the one that was handed out. -/
theorem repay (returned : List PhysAddr)
    (h : Owes a₀ range lent₀ (returned.map PhysAddr.frame) a) :
    (a.run (returned.map .free)).Meets admits fun (_, a') => a' = a₀ := by
  induction returned generalizing a with
  | nil => exact Run.meets_pure h.eq_of_nil
  | cons address returned ih =>
      have hcall : (a.perform (.free address)).Meets admits fun out =>
          Owes a₀ range lent₀ (returned.map PhysAddr.frame) out.2 :=
        h.free_meets.bind fun _ h' => Run.meets_pure h'
      refine hcall.bind ?_
      rintro ⟨_, a'⟩ h'
      exact (ih h').bind fun _ heq => Run.meets_pure heq

end Owes

/-- **Frames that are taken and given back leave no trace.**  From every state that the allocator
can be in, `k` frames are taken one after the other, or as many as there are.  If their frames come
back in any order, each by any address in it, then the allocator is what it was: words, count and
hint.  No step faults. -/
theorem run_returns_frames (calls : List FrameCall) :
    (empty.run calls).Meets (fun _ => False) fun (_, a) => ∀ k : Nat,
      (a.run (List.replicate k .alloc)).Meets (fun _ => False) fun (taken, a') =>
        taken.reduceOption.length = min k a.freeCount ∧
          ∀ returned : List PhysAddr,
            (returned.map PhysAddr.frame).Perm (taken.reduceOption.map PhysAddr.frame) →
              (a'.run (returned.map .free)).Meets (fun _ => False) fun (_, a'') => a'' = a := by
  refine (empty_refines.run_meets calls).imp fun (_, a) ⟨_, h⟩ => ?_
  intro k
  obtain ⟨lent, hlends⟩ := h.represents.exists_lends
  have howes : (a.run (List.replicate k .alloc)).Meets (fun _ => False) _ :=
    (Owes.nil hlends).take k
  refine ((h.represents.run_alloc_length k).and howes).imp ?_
  rintro ⟨taken, a'⟩ ⟨hlength, howes⟩
  refine ⟨hlength, fun returned hperm => Owes.repay returned (Owes.perm howes ?_)⟩
  rw [List.append_nil]
  exact hperm.symm

end FrameAllocator

end TinyKernel
