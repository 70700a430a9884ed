/-!
# The bytes of a heap

The memory that a heap manages: a growing row of bytes, in which words of 32 bits can be read and
written, least significant byte first.  Reading outside gives zero and writing outside does nothing;
the heap itself checks its bounds before it reads or writes a header.

## What is load-bearing

Two views say everything about an arena: its `size`, and its `byte` at each offset (`Arena.ext`).
For each operation there is one lemma for each of the two, and words are read through their bytes,
so that a word which is written is read back (`Arena.word_setWord`) and bytes elsewhere stay as they
are (`Arena.byte_setWord_of_outside`).
-/

namespace TinyKernel

/-- **The bytes of a heap**, all of which are backed by pages.  Headers and payloads lie in it side by
side; nothing but their offsets tells them apart, and a write in the wrong place would do damage. -/
structure Arena where
  bytes : ByteArray

namespace Arena

/-- No bytes at all: the arena of a heap that is not set up yet. -/
def empty : Arena := ⟨ByteArray.empty⟩

/-- The number of bytes.  It only ever grows, by whole pages. -/
def size (a : Arena) : Nat := a.bytes.size

/-- The byte at an offset.  Reading past the end gives zero, which is also what a new page reads as; so
growing an arena changes no byte (`byte_grow`). -/
def byte (a : Arena) (i : Nat) : UInt8 :=
  if h : i < a.bytes.size then a.bytes[i] else 0

/-- Replaces the byte at an offset.  A write past the end is dropped, and the size stays as it is. -/
def setByte (a : Arena) (i : Nat) (b : UInt8) : Arena :=
  if h : i < a.bytes.size then ⟨a.bytes.set i b h⟩ else a

/-- The word at an offset, lowest byte first.  The offset need not be a multiple of four. -/
def word (a : Arena) (i : Nat) : UInt32 :=
  UInt32.ofNat ((a.byte i).toNat + 0x100 * (a.byte (i + 1)).toNat
    + 0x10000 * (a.byte (i + 2)).toNat + 0x1000000 * (a.byte (i + 3)).toNat)

/-- Replaces the word at an offset, lowest byte first.  The four bytes are written one after the other,
and none of them past the end. -/
def setWord (a : Arena) (i : Nat) (w : UInt32) : Arena :=
  (((a.setByte i (UInt8.ofNat w.toNat)).setByte (i + 1) (UInt8.ofNat (w.toNat / 0x100))).setByte
    (i + 2) (UInt8.ofNat (w.toNat / 0x10000))).setByte (i + 3) (UInt8.ofNat (w.toNat / 0x1000000))

/-- Appends zero bytes, as the pages that back them are zero. -/
def grow (a : Arena) : Nat → Arena
  | 0 => a
  | n + 1 => grow ⟨a.bytes.push 0⟩ n

/-- Sets the `n` bytes from an offset on to one value, as far as the arena goes. -/
def fill (a : Arena) (i : Nat) (b : UInt8) : Nat → Arena
  | 0 => a
  | n + 1 => (a.setByte i b).fill (i + 1) b n

/-- Copies `n` bytes from one offset to another, in increasing order.  If the ranges overlap, bytes may
be copied that were written just before; an allocation that moves has two payloads that do not overlap
(`byte_copy`). -/
def copy (a : Arena) (source target : Nat) : Nat → Arena
  | 0 => a
  | n + 1 => (a.setByte target (a.byte source)).copy (source + 1) (target + 1) n

/-! ## One byte -/

theorem byte_of_lt {a : Arena} {i : Nat} (h : i < a.bytes.size) : a.byte i = a.bytes[i] :=
  dif_pos h

/-- Reading past the end gives zero.  The lemma lets bytes be compared without a bound on the
offset. -/
theorem byte_of_size_le {a : Arena} {i : Nat} (h : a.size ≤ i) : a.byte i = 0 :=
  dif_neg (Nat.not_lt.mpr h)

/-- Size and bytes determine an arena.  With this, two arenas that were written to in different ways
are shown equal by what is read from them. -/
theorem ext {a b : Arena} (size_eq : a.size = b.size) (byte_eq : ∀ i, a.byte i = b.byte i) :
    a = b := by
  obtain ⟨x⟩ := a
  obtain ⟨y⟩ := b
  congr 1
  refine ByteArray.ext_getElem size_eq fun i hi hj => ?_
  have h := byte_eq i
  rwa [byte_of_lt hi, byte_of_lt hj] at h

@[simp]
theorem size_setByte (a : Arena) (i : Nat) (b : UInt8) : (a.setByte i b).size = a.size := by
  unfold setByte size
  split
  · simp only [← ByteArray.size_data, ByteArray.data_set, Array.size_set]
  · rfl

theorem byte_setByte (a : Arena) (i j : Nat) (b : UInt8) :
    (a.setByte i b).byte j = if j = i ∧ i < a.size then b else a.byte j := by
  by_cases hi : i < a.bytes.size
  · have hset : a.setByte i b = ⟨a.bytes.set i b hi⟩ := dif_pos hi
    by_cases hj : j < a.bytes.size
    · have hj' : j < (a.bytes.set i b hi).size := by
        simpa only [← ByteArray.size_data, ByteArray.data_set, Array.size_set] using hj
      rw [hset, byte_of_lt (a := ⟨a.bytes.set i b hi⟩) hj', byte_of_lt hj]
      simp only [ByteArray.getElem_eq_getElem_data, ByteArray.data_set, Array.getElem_set, size, hi,
        and_true]
      simp only [eq_comm]
    · have : ¬ (j = i ∧ i < a.size) := fun h => hj (h.1 ▸ hi)
      rw [if_neg this, byte_of_size_le (by rw [size_setByte]; exact Nat.not_lt.mp hj),
        byte_of_size_le (Nat.not_lt.mp hj)]
  · rw [show a.setByte i b = a from dif_neg hi, if_neg fun h => hi h.2]

/-! ## Words -/

@[simp]
theorem size_setWord (a : Arena) (i : Nat) (w : UInt32) : (a.setWord i w).size = a.size := by
  simp only [setWord, size_setByte]

theorem byte_setWord_of_outside (a : Arena) {i j : Nat} (w : UInt32) (h : j < i ∨ i + 4 ≤ j) :
    (a.setWord i w).byte j = a.byte j := by
  simp only [setWord, byte_setByte]
  grind

/-- A word depends on its four bytes only, so what leaves these alone leaves the word alone. -/
theorem word_congr {a b : Arena} {i : Nat}
    (h : ∀ j, i ≤ j → j < i + 4 → a.byte j = b.byte j) : a.word i = b.word i := by
  simp only [word]
  rw [h i (by omega) (by omega), h (i + 1) (by omega) (by omega), h (i + 2) (by omega) (by omega),
    h (i + 3) (by omega) (by omega)]

/-- A word that is written is read back, if there is room for all of it. -/
theorem word_setWord {a : Arena} {i : Nat} (w : UInt32) (h : i + 4 ≤ a.size) :
    (a.setWord i w).word i = w := by
  have hw := w.toNat_lt
  apply UInt32.toNat_inj.mp
  simp only [word, setWord, byte_setByte, size_setByte]
  simp only [show i < a.size by omega, show i + 1 < a.size by omega, show i + 2 < a.size by omega,
    show i + 3 < a.size by omega, and_true]
  simp only [Nat.left_eq_add, Nat.add_left_cancel_iff, Nat.reduceEqDiff, reduceCtorEq, if_true,
    if_false, UInt8.toNat_ofNat', UInt32.toNat_ofNat']
  omega

/-- Writing a word leaves the words alone that do not overlap it.  The four words of a header, and the
headers of different blocks, are kept apart by this. -/
theorem word_setWord_of_disjoint (a : Arena) {i j : Nat} (w : UInt32)
    (h : j + 4 ≤ i ∨ i + 4 ≤ j) : (a.setWord i w).word j = a.word j :=
  word_congr fun k hk hk' => byte_setWord_of_outside a w (by omega)

/-! ## Ranges of bytes -/

@[simp]
theorem size_grow (a : Arena) (n : Nat) : (a.grow n).size = a.size + n := by
  induction n generalizing a with
  | zero => rfl
  | succ n ih =>
    rw [grow, ih]
    simp only [size, ByteArray.size_push]
    omega

/-- The bytes that an arena grows by are zero, as reading past the end was before.  Nothing that is
read changes when an arena grows, except its size. -/
@[simp]
theorem byte_grow (a : Arena) (n j : Nat) : (a.grow n).byte j = a.byte j := by
  induction n generalizing a with
  | zero => rfl
  | succ n ih =>
    rw [grow, ih]
    by_cases hj : j < a.bytes.size
    · rw [byte_of_lt (a := ⟨a.bytes.push 0⟩) (by simp only [ByteArray.size_push]; omega),
        byte_of_lt hj]
      simp only [ByteArray.getElem_eq_getElem_data, ByteArray.data_push]
      exact Array.getElem_push_lt hj
    · rw [byte_of_size_le (a := a) (by simpa [size] using hj)]
      by_cases hj' : j = a.bytes.size
      · subst hj'
        rw [byte_of_lt (a := ⟨a.bytes.push 0⟩) (by simp)]
        simp only [ByteArray.getElem_eq_getElem_data, ByteArray.data_push]
        exact Array.getElem_push_eq
      · exact byte_of_size_le (by simp only [size, ByteArray.size_push]; omega)

@[simp]
theorem size_fill (a : Arena) (i : Nat) (b : UInt8) (n : Nat) : (a.fill i b n).size = a.size := by
  induction n generalizing a i with
  | zero => rfl
  | succ n ih => rw [fill, ih, size_setByte]

theorem byte_fill (a : Arena) (i : Nat) (b : UInt8) (n j : Nat) :
    (a.fill i b n).byte j = if i ≤ j ∧ j < i + n ∧ j < a.size then b else a.byte j := by
  induction n generalizing a i with
  | zero => rw [fill, if_neg (by omega)]
  | succ n ih =>
    rw [fill, ih, size_setByte, byte_setByte]
    grind

@[simp]
theorem size_copy (a : Arena) (source target n : Nat) :
    (a.copy source target n).size = a.size := by
  induction n generalizing a source target with
  | zero => rfl
  | succ n ih => rw [copy, ih, size_setByte]

/-- Copying between two ranges that do not overlap: the target has the bytes of the source, and all
others are as before. -/
theorem byte_copy (a : Arena) (source target n j : Nat)
    (disjoint : source + n ≤ target ∨ target + n ≤ source) :
    (a.copy source target n).byte j =
      if target ≤ j ∧ j < target + n ∧ j < a.size then a.byte (source + (j - target))
      else a.byte j := by
  induction n generalizing a source target with
  | zero => rw [copy, if_neg (by omega)]
  | succ n ih =>
    rw [copy, ih _ _ _ (by omega), size_setByte]
    by_cases hj : j = target
    · subst hj
      rw [if_neg (by omega), byte_setByte]
      grind
    · have hrest : (a.setByte target (a.byte source)).byte j = a.byte j := by
        rw [byte_setByte, if_neg fun h => hj h.1]
      by_cases hin : target ≤ j ∧ j < target + (n + 1) ∧ j < a.size
      · rw [if_pos hin, if_pos (by omega), byte_setByte, if_neg (by omega)]
        congr 1
        omega
      · rw [if_neg hin, if_neg (by omega), hrest]

end Arena

end TinyKernel
