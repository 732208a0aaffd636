import Mathlib.Data.Nat.Basic

/-! Two counters in two clock domains, each read by the other domain through two registers.
A producer that stays behind the stale read count and a consumer that stays behind the
stale write count never overrun each other, whatever the order of their edges. -/
namespace Sync

/-- The true counts, and the copies of the other domain from the newest to the oldest. -/
structure Crossing where
  written : Nat
  read : Nat
  writtenSync : Nat
  writtenSeen : Nat
  readSync : Nat
  readSeen : Nat

namespace Crossing

/-- One instant with its clock edges: a domain moves its own count and shifts its copies. -/
def next (c : Crossing) (writeEdge readEdge write read : Bool) : Crossing where
  written := if writeEdge && write then c.written + 1 else c.written
  read := if readEdge && read then c.read + 1 else c.read
  writtenSync := if readEdge then c.written else c.writtenSync
  writtenSeen := if readEdge then c.writtenSync else c.writtenSeen
  readSync := if writeEdge then c.read else c.readSync
  readSeen := if writeEdge then c.readSync else c.readSeen

structure Sound (capacity : Nat) (c : Crossing) : Prop where
  readSeen_le : c.readSeen ≤ c.readSync
  readSync_le : c.readSync ≤ c.read
  read_le : c.read ≤ c.writtenSeen
  writtenSeen_le : c.writtenSeen ≤ c.writtenSync
  writtenSync_le : c.writtenSync ≤ c.written
  written_le : c.written ≤ c.readSeen + capacity

variable {capacity : Nat} {c : Crossing}

theorem Sound.stored_le (sound : Sound capacity c) : c.written ≤ c.read + capacity :=
  Nat.le_trans sound.written_le
    (Nat.add_le_add_right (Nat.le_trans sound.readSeen_le sound.readSync_le) _)

theorem sound_start (capacity : Nat) : Sound capacity ⟨0,0,0,0,0,0⟩ := by
  constructor <;> exact Nat.zero_le _

/-- A write within the capacity beyond the count seen and a read below the count seen keep
the order of all copies. -/
theorem Sound.next (sound : Sound capacity c) {writeEdge readEdge write read : Bool}
    (room : write = true → c.written < c.readSeen + capacity)
    (there : read = true → c.read < c.writtenSeen) :
    Sound capacity (c.next writeEdge readEdge write read) := by
  obtain ⟨readSeen,readSync,read_le,writtenSeen,writtenSync,written_le⟩ := sound
  constructor <;> simp only [Crossing.next] <;>
    cases writeEdge <;> cases readEdge <;> cases write <;> cases read <;> simp at room there ⊢ <;> omega

end Crossing
end Sync
