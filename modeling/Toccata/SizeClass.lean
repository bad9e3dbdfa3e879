import Mathlib.Tactic.Common

/-! # Size classes

Small requests are rounded up to one of a fixed list of object sizes. Class 0 is
the sentinel of requests that bypass the classes. The hot path reads the class of a
size from a table built by walking sizes and classes together.
-/

namespace Toccata.SizeClass

def classSizes : List Nat :=
  [0,
   8, 16, 24, 32, 48, 64, 80, 96, 112, 128,
   160, 192, 224, 256,
   320, 384, 448, 512,
   640, 768, 896, 1024,
   1280, 1536, 1792, 2048,
   2560, 3072, 3584, 4096,
   5120, 6144, 7168, 8192,
   10240, 12288, 14336, 16384,
   20480, 24576, 28672, 32768,
   49152, 65536,
   98304, 131072,
   196608, 262144]

def maxSmall : Nat := 256 * 1024

def minAlign : Nat := 8

def numClasses : Nat := classSizes.length

def sizeOfClass (cls : Nat) : Nat := classSizes.getD cls 0

/-- The first class at or past `cls` that `size` fits, trying `tries` of them. -/
def seek (size : Nat) : Nat → Nat → Nat
  | 0, cls => cls
  | tries + 1, cls => if size ≤ sizeOfClass cls then cls else seek size tries (cls + 1)

def classFor (size : Nat) : Option Nat :=
  if maxSmall < size then none else
    let cls := seek (if size = 0 then 1 else size) (numClasses - 1) 1
    if cls < numClasses then some cls else none

def lookupLen : Nat := maxSmall / 8 + 1

/-- The entries from `i` on of the table, with the class cursor at `cls`. -/
def buildLookup : Nat → Nat → Nat → List Nat
  | 0, _, _ => []
  | left + 1, i, cls =>
      let cls' := seek (if i = 0 then 1 else i * 8) (numClasses - cls) cls
      (if cls' < numClasses then cls' else 0) :: buildLookup left (i + 1) cls'

def lookup : List Nat := buildLookup lookupLen 0 1

def classOf (size : Nat) : Option Nat :=
  if size = 0 ∨ maxSmall < size then none else
    let cls := lookup.getD ((size + (minAlign - 1)) / 8) 0
    if cls = 0 then none else some cls

/-- The first class from `cls` on whose size is a multiple of `align`. -/
def seekAligned (align : Nat) : Nat → Nat → Option Nat
  | 0, _ => none
  | tries + 1, cls =>
      if sizeOfClass cls % align = 0 then some cls
      else if numClasses ≤ cls + 1 then none
      else seekAligned align tries (cls + 1)

def alignedClass (need align : Nat) : Option Nat :=
  (classOf need).bind (seekAligned align numClasses)

/-! ## The table -/

/-- A scan that passes a class of enough room stops at one. -/
theorem seek_fits {size cls last : Nat} (tries : Nat) (first : cls ≤ last) (inside : last < cls + tries)
    (fits : size ≤ sizeOfClass last) :
    cls ≤ seek size tries cls ∧ seek size tries cls ≤ last ∧
      size ≤ sizeOfClass (seek size tries cls) := by
  induction tries generalizing cls with
  | zero => omega
  | succ tries ih =>
      rw [seek]
      split
      · rename_i here
        exact ⟨Nat.le_refl _, first, here⟩
      · rename_i small
        have later : cls ≠ last := fun same => small (same ▸ fits)
        obtain ⟨low, high, found⟩ := @ih (cls + 1) (by omega) (by omega)
        exact ⟨by omega, high, found⟩

theorem buildLookup_fits {left j : Nat} (i cls : Nat) (low : 1 ≤ cls) (high : cls < numClasses) (inside : j < left)
    (small : (i + j) * 8 ≤ maxSmall) :
    1 ≤ (buildLookup left i cls).getD j 0 ∧ (buildLookup left i cls).getD j 0 < numClasses ∧
      (i + j) * 8 ≤ sizeOfClass ((buildLookup left i cls).getD j 0) := by
  induction left generalizing i cls j with
  | zero => cases inside
  | succ left ih =>
      have width : (if i = 0 then 1 else i * 8) ≤ sizeOfClass (numClasses - 1) := by
        have last : sizeOfClass (numClasses - 1) = maxSmall := by decide
        rw [last]
        split
        · decide
        · omega
      obtain ⟨low', high', fits⟩ := seek_fits (numClasses - cls) (Nat.le_sub_one_of_lt high)
        (by omega) width
      rw [buildLookup]
      generalize seek (if i = 0 then 1 else i * 8) (numClasses - cls) cls = cls' at *
      have found : cls' < numClasses := by omega
      cases j with
      | zero =>
          rw [if_pos found, List.getD_cons_zero]
          refine ⟨by omega, found, ?_⟩
          split at fits <;> omega
      | succ j =>
          rw [List.getD_cons_succ]
          obtain ⟨above, below, room⟩ := ih (i + 1) cls' (by omega) found (Nat.lt_of_succ_lt_succ inside)
            (by omega)
          refine ⟨above, below, ?_⟩
          omega

/-- Every request up to the limit has a class, and fits it. -/
theorem classOf_fits (size : Nat) (pos : 0 < size) (small : size ≤ maxSmall) :
    ∃ cls, classOf size = some cls ∧ 1 ≤ cls ∧ cls < numClasses ∧ size ≤ sizeOfClass cls := by
  have whole : maxSmall = 32768 * 8 := by decide
  have served : ¬ (size = 0 ∨ maxSmall < size) := by omega
  have inside : (size + (minAlign - 1)) / 8 < lookupLen := by
    rw [show lookupLen = 32769 by decide, show minAlign - 1 = 7 by decide]
    omega
  obtain ⟨low, high, fits⟩ := buildLookup_fits 0 1 (Nat.le_refl 1) (by decide) inside (by
    rw [show minAlign - 1 = 7 by decide]
    omega)
  rw [Nat.zero_add] at fits
  rw [classOf, if_neg served, lookup]
  generalize (buildLookup lookupLen 0 1).getD ((size + (minAlign - 1)) / 8) 0 = cls at *
  rw [if_neg (by omega)]
  refine ⟨cls, rfl, low, high, Nat.le_trans ?_ fits⟩
  rw [show minAlign - 1 = 7 by decide]
  omega

theorem classOf_some {size cls : Nat} (found : classOf size = some cls) :
    0 < size ∧ size ≤ maxSmall ∧ 1 ≤ cls ∧ cls < numClasses ∧ size ≤ sizeOfClass cls := by
  by_cases served : size = 0 ∨ maxSmall < size
  · rw [classOf, if_pos served] at found
    cases found
  · obtain ⟨cls', same, fits⟩ := classOf_fits size (by omega) (by omega)
    rw [found] at same
    cases same
    exact ⟨by omega, by omega, fits⟩

theorem sizeOfClass_succ : ∀ cls, cls + 1 < numClasses → sizeOfClass cls ≤ sizeOfClass (cls + 1) := by
  intro cls inside
  have all : ∀ cls < numClasses - 1, sizeOfClass cls ≤ sizeOfClass (cls + 1) := by decide
  exact all cls (by omega)

theorem seekAligned_some {align tries cls found : Nat} (inside : cls < numClasses)
    (sought : seekAligned align tries cls = some found) :
    cls ≤ found ∧ found < numClasses ∧ sizeOfClass cls ≤ sizeOfClass found ∧ align ∣ sizeOfClass found := by
  induction tries generalizing cls with
  | zero => cases sought
  | succ tries ih =>
      rw [seekAligned] at sought
      split at sought
      · rename_i divides
        cases sought
        exact ⟨Nat.le_refl _, inside, Nat.le_refl _, Nat.dvd_of_mod_eq_zero divides⟩
      · split at sought
        · cases sought
        · rename_i more
          have next : cls + 1 < numClasses := Nat.lt_of_not_le more
          obtain ⟨low, high, room, divides⟩ := ih next sought
          exact ⟨by omega, high, Nat.le_trans (sizeOfClass_succ cls next) room, divides⟩

/-- A search that passes a multiple of the alignment finds one. -/
theorem seekAligned_found {align tries cls last : Nat} (first : cls ≤ last) (inside : last < cls + tries)
    (divides : align ∣ sizeOfClass last) (isClass : last < numClasses) :
    ∃ found, seekAligned align tries cls = some found := by
  induction tries generalizing cls with
  | zero => omega
  | succ tries ih =>
      rw [seekAligned]
      split
      · exact ⟨cls, rfl⟩
      · rename_i other
        have later : cls ≠ last := by
          rintro rfl
          exact other (Nat.mod_eq_zero_of_dvd divides)
        rw [if_neg (by omega)]
        exact ih (by omega) (by omega)

/-- A class for an alignment fits the request and keeps the alignment from slot to slot. -/
theorem alignedClass_some {need align cls : Nat} (found : alignedClass need align = some cls) :
    1 ≤ cls ∧ cls < numClasses ∧ need ≤ sizeOfClass cls ∧ align ∣ sizeOfClass cls := by
  rw [alignedClass, Option.bind_eq_some_iff] at found
  obtain ⟨first, looked, sought⟩ := found
  obtain ⟨-, -, pos, inside, fits⟩ := classOf_some looked
  obtain ⟨low, high, room, divides⟩ := seekAligned_some inside sought
  exact ⟨by omega, high, Nat.le_trans fits room, divides⟩

end Toccata.SizeClass
