import Mathlib.Data.String.Basic
import TinyKernel.Process.ControlBlock

/-!
# The part of a name that is kept

A process keeps the longest prefix of its name that is made of whole characters and fits into 32
bytes of UTF-8.

## What is load-bearing

The bytes of a prefix only grow with it.  So where the first character does not fit, no longer prefix
fits either, whatever comes behind it; and every prefix that fits is a prefix of what is kept
(`prefix_fittingChars`).  That a name is kept whole, that nothing more fits and that it is kept the
same a second time follow from this and from the bound alone.

The buffer that takes the characters is not looked into.  It is enough that it takes one if and only
if its bytes fit into what room is left (`TakesWhatFits`).

* `IsLongestFitting` — what is kept of a text, said without the way to it
* `pushChars` — a buffer is filled until it refuses
* `ControlBlock.new_name_isLongestFitting` — the name of a new process
-/

namespace TinyKernel

open String (utf8Len utf8Len_cons utf8Len_toList utf8ByteSize_ofList utf8ByteSize_push)

variable {room : Nat} {p cs rest : List Char} {c : Char}

/-! ## The characters that fit -/

theorem fittingChars_isPrefix (room : Nat) (cs : List Char) : fittingChars room cs <+: cs := by
  fun_induction fittingChars room cs with
  | case1 room => exact List.prefix_rfl
  | case2 room c rest hfit ih => exact (List.prefix_cons_inj c).mpr ih
  | case3 room c rest hover => exact List.nil_prefix

theorem utf8Len_fittingChars_le (room : Nat) (cs : List Char) :
    utf8Len (fittingChars room cs) ≤ room := by
  fun_induction fittingChars room cs with
  | case1 room => exact Nat.zero_le _
  | case2 room c rest hfit ih =>
      rw [utf8Len_cons]
      omega
  | case3 room c rest hover => exact Nat.zero_le _

/-- **Whatever prefix fits is part of it**, by induction on the characters: one that is left out did
not fit, and neither does any prefix with it. -/
theorem prefix_fittingChars (hp : p <+: cs) (hfit : utf8Len p ≤ room) :
    p <+: fittingChars room cs := by
  fun_induction fittingChars room cs generalizing p with
  | case1 room => exact hp
  | case2 room c rest hc ih =>
      rcases List.prefix_cons_iff.mp hp with rfl | ⟨tail, rfl, htail⟩
      · exact List.nil_prefix
      · rw [utf8Len_cons] at hfit
        exact (List.prefix_cons_inj c).mpr (ih htail (by omega))
  | case3 room c rest hover =>
      rcases List.prefix_cons_iff.mp hp with rfl | ⟨tail, rfl, -⟩
      · exact List.nil_prefix
      · rw [utf8Len_cons] at hfit
        omega

/-! ## The longest prefix that fits -/

/-- **What is kept of a text**: the longest prefix, of whole characters, that takes no more than `room`
bytes in UTF-8.  Texts are compared character by character, so that no character is cut in two. -/
structure IsLongestFitting (room : Nat) (text kept : String) : Prop where
  front : kept.toList <+: text.toList
  bytes_le : kept.utf8ByteSize ≤ room
  longest : ∀ p : String, p.toList <+: text.toList → p.utf8ByteSize ≤ room →
    p.toList <+: kept.toList

theorem keptName_isLongestFitting (name : String) :
    IsLongestFitting processNameBytes name (keptName name) where
  front := by
    rw [keptName, String.toList_ofList]
    exact fittingChars_isPrefix ..
  bytes_le := by
    rw [keptName, utf8ByteSize_ofList]
    exact utf8Len_fittingChars_le ..
  longest p hp hfit := by
    rw [keptName, String.toList_ofList]
    rw [← utf8Len_toList] at hfit
    exact prefix_fittingChars hp hfit

namespace IsLongestFitting

variable {text kept kept' : String}

/-- There is one such prefix only: each of two is part of the other. -/
theorem unique (h : IsLongestFitting room text kept) (h' : IsLongestFitting room text kept') :
    kept = kept' := by
  have hle : kept.toList <+: kept'.toList := h'.longest kept h.front h.bytes_le
  have hge : kept'.toList <+: kept.toList := h.longest kept' h'.front h'.bytes_le
  exact String.toList_inj.mp (hle.eq_of_length_le hge.length_le)

/-- A text that fits is kept whole, since it is a prefix of itself. -/
theorem of_fits (h : text.utf8ByteSize ≤ room) : IsLongestFitting room text text where
  front := List.prefix_rfl
  bytes_le := h
  longest _ hp _ := hp

theorem eq_text_iff (h : IsLongestFitting room text kept) :
    kept = text ↔ text.utf8ByteSize ≤ room := by
  constructor
  · rintro rfl
    exact h.bytes_le
  · intro hfit
    exact h.unique (of_fits hfit)

/-- **The next character does not fit any more.**  Otherwise the prefix with that character would be a
longer one that fits. -/
theorem room_lt_next (h : IsLongestFitting room text kept)
    (hnext : text.toList = kept.toList ++ c :: rest) : room < kept.utf8ByteSize + c.utf8Size := by
  by_contra hfit
  have hbytes : (kept.push c).utf8ByteSize ≤ room := by
    rw [utf8ByteSize_push]
    exact Nat.not_lt.mp hfit
  have hfront : (kept.push c).toList <+: text.toList := by
    rw [String.toList_push, hnext]
    exact ⟨rest, List.append_assoc ..⟩
  -- the longer prefix would be a prefix of the shorter one
  have hlength := (h.longest _ hfront hbytes).length_le
  rw [String.toList_push, List.length_append, List.length_singleton] at hlength
  exact Nat.not_succ_le_self _ hlength

/-- Of a text that does not fit, a character is left that comes next. -/
theorem exists_next (h : IsLongestFitting room text kept) (hover : room < text.utf8ByteSize) :
    ∃ c rest, text.toList = kept.toList ++ c :: rest := by
  obtain ⟨left, hleft⟩ := h.front
  cases left with
  | nil =>
      rw [List.append_nil] at hleft
      have heq : kept = text := String.toList_inj.mp hleft
      exact absurd (h.eq_text_iff.mp heq) (Nat.not_le.mpr hover)
  | cons c rest => exact ⟨c, rest, hleft.symm⟩

end IsLongestFitting

/-! ## Filling a buffer -/

/-- **A buffer takes a character if and only if its bytes fit** into the room that is left for a
name. -/
def TakesWhatFits (push? : String → Char → Option String) : Prop :=
  ∀ s c, s.utf8ByteSize ≤ processNameBytes →
    push? s c = if c.utf8Size ≤ processNameBytes - s.utf8ByteSize then some (s.push c) else none

/-- Characters are pushed one after the other, until one is refused.  Those behind it are not tried,
even if they would fit. -/
def pushChars (push? : String → Char → Option String) (kept : String) : List Char → String
  | [] => kept
  | c :: rest =>
    match push? kept c with
    | some longer => pushChars push? longer rest
    | none => kept

variable {push? : String → Char → Option String}

/-- The buffer holds what it held before, and behind it the characters that fit.  By induction on the
characters, with less room after each. -/
theorem pushChars_eq (hpush : TakesWhatFits push?) (cs : List Char) {kept : String}
    (hkept : kept.utf8ByteSize ≤ processNameBytes) :
    pushChars push? kept cs
      = kept ++ String.ofList (fittingChars (processNameBytes - kept.utf8ByteSize) cs) := by
  induction cs generalizing kept with
  | nil => exact String.append_empty.symm
  | cons c rest ih =>
      rw [pushChars, fittingChars, hpush kept c hkept]
      by_cases hfit : c.utf8Size ≤ processNameBytes - kept.utf8ByteSize
      · have hbytes : (kept.push c).utf8ByteSize = kept.utf8ByteSize + c.utf8Size :=
          utf8ByteSize_push
        rw [if_pos hfit, if_pos hfit]
        show pushChars push? (kept.push c) rest = _
        rw [ih (by omega), hbytes, Nat.sub_add_eq]
        refine String.toList_inj.mp ?_
        simp only [String.toList_append, String.toList_push, String.toList_ofList,
          List.append_assoc, List.singleton_append]
      · rw [if_neg hfit, if_neg hfit]
        exact String.append_empty.symm

theorem pushChars_empty (hpush : TakesWhatFits push?) (name : String) :
    pushChars push? "" name.toList = keptName name := by
  have hempty : "".utf8ByteSize ≤ processNameBytes := Nat.zero_le _
  rw [pushChars_eq hpush name.toList hempty, String.empty_append]
  rfl

/-! ## The name of a process -/

/-- **A process keeps the longest prefix of its name that fits into 32 bytes.**  It is the whole
name if and only if the name has at most 32 bytes; otherwise it has at least 29, and the next
character would not fit.  Of a name that was kept, all of it is kept.  And it is what any buffer of
32 bytes holds when the characters are pushed one after the other, until one is refused. -/
theorem ControlBlock.new_name_isLongestFitting {ε : Type} (pid : Pid) (name : String)
    (priority : Priority) (parent? : Option Pid) :
    let kept := (ControlBlock.new pid name priority parent? : ControlBlock ε).name
    IsLongestFitting 32 name kept
      ∧ (kept = name ↔ name.utf8ByteSize ≤ 32)
      ∧ (32 < name.utf8ByteSize →
        29 ≤ kept.utf8ByteSize ∧ kept.utf8ByteSize ≤ 32
          ∧ ∃ c rest, name.toList = kept.toList ++ c :: rest
            ∧ 32 < kept.utf8ByteSize + c.utf8Size)
      ∧ (ControlBlock.new pid kept priority parent? : ControlBlock ε).name = kept
      ∧ ∀ push?, TakesWhatFits push? → pushChars push? "" name.toList = kept := by
  intro kept
  have hlongest : IsLongestFitting 32 name kept := keptName_isLongestFitting name
  refine ⟨hlongest, hlongest.eq_text_iff, fun hover => ?_, ?_, fun push? hpush => ?_⟩
  · obtain ⟨c, rest, hnext⟩ := hlongest.exists_next hover
    have hlt := hlongest.room_lt_next hnext
    have hsize := c.utf8Size_le_four
    exact ⟨by omega, hlongest.bytes_le, c, rest, hnext, hlt⟩
  · exact (keptName_isLongestFitting kept).unique (.of_fits hlongest.bytes_le)
  · exact pushChars_empty hpush name

/-- A buffer that looks at its room first: the plain case of `TakesWhatFits`. -/
def pushFitting (s : String) (c : Char) : Option String :=
  if c.utf8Size ≤ processNameBytes - s.utf8ByteSize then some (s.push c) else none

theorem pushFitting_takes : TakesWhatFits pushFitting := fun _ _ _ => rfl

-- The two bytes of the last letter do not fit, and the one of the full stop is not squeezed in.
theorem accented_name_is_cut :
    let name := "a name of thirty-one bytes thené."
    let kept := "a name of thirty-one bytes then"
    TakesWhatFits pushFitting ∧ 32 < name.utf8ByteSize
      ∧ pushChars pushFitting "" name.toList = kept ∧ IsLongestFitting 32 name kept := by
  intro name kept
  have hkept : keptName name = kept := by decide +kernel
  obtain ⟨hlongest, -, -, -, hpushed⟩ :=
    @ControlBlock.new_name_isLongestFitting Unit .kernel name .normal none
  refine ⟨pushFitting_takes, by decide +kernel, ?_, ?_⟩
  · exact (hpushed pushFitting pushFitting_takes).trans hkept
  · rw [← hkept]
    exact hlongest

end TinyKernel
