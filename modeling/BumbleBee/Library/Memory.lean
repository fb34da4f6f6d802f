import Mathlib.Data.Nat.Notation

/-!
Flat byte memory: the effect of `memcpy` and `memmove`, and what a later read of
an address range sees.
-/

namespace BumbleBee.Library.Memory

abbrev Bytes := Nat → UInt8

section
variable (mem : Bytes)

def read (offset size : Nat) : Fin size → UInt8 := fun i => mem (offset + i.val)

def copyIn (target : Nat) {size : Nat} (data : Fin size → UInt8) : Bytes :=
  fun a => if inside : target ≤ a ∧ a - target < size then data ⟨a - target, inside.2⟩ else mem a

/-- `memmove`: the source range is read before anything is overwritten. -/
def moveBlock (target source size : Nat) : Bytes :=
  fun a => if target ≤ a ∧ a < target + size then mem (source + (a - target)) else mem a

theorem read_copyIn_self (target : Nat) {size : Nat} (data : Fin size → UInt8) :
    read (copyIn mem target data) target size = data := by
  funext i
  have inside : target ≤ target + i.val ∧ target + i.val - target < size := by omega
  simp only [read, copyIn]
  rw [dif_pos inside]
  congr 1
  exact Fin.ext (Nat.add_sub_cancel_left ..)

theorem read_copyIn_apart (target offset length : Nat) {size : Nat} (data : Fin size → UInt8)
    (apart : offset + length ≤ target ∨ target + size ≤ offset) :
    read (copyIn mem target data) offset length = read mem offset length := by
  funext i
  have outside : ¬(target ≤ offset + i.val ∧ offset + i.val - target < size) := by omega
  simp only [read, copyIn, dif_neg outside]

theorem read_moveBlock_within (target source size offset length : Nat) (low : target ≤ offset)
    (high : offset + length ≤ target + size) : read (moveBlock mem target source size) offset length =
      read mem (source + (offset - target)) length := by
  funext i
  have inside : target ≤ offset + i.val ∧ offset + i.val < target + size := by omega
  simp only [read, moveBlock, if_pos inside]
  congr 1
  omega

theorem read_moveBlock_apart (target source size offset length : Nat)
    (apart : offset + length ≤ target ∨ target + size ≤ offset) :
    read (moveBlock mem target source size) offset length = read mem offset length := by
  funext i
  have outside : ¬(target ≤ offset + i.val ∧ offset + i.val < target + size) := by omega
  simp only [read, moveBlock, if_neg outside]

end

end BumbleBee.Library.Memory
