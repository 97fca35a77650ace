import RoundRobin.Fault
import RoundRobin.Parameters

/-!
The entry points that an application supplies: one for the idle slot and one for each other slot, in
ascending order of slots. The slots other than the idle one are numbered from zero without a gap.
-/

namespace RoundRobin

/-- The number of an application slot among the slots other than `idle`. -/
def applicationNumber (slot idle : UInt64) : Except Fault (Option UInt64) :=
  if slot = idle then .ok none
  else if slot < idle then .ok (some slot)
  else do return some (← subExact slot 1)

structure Application where
  idle : Entry
  tasks : Vector Entry 4
  deriving DecidableEq, Repr

/-- The entry point bound to a slot. -/
def Application.entry (app : Application) (slot : UInt64) : Except Fault Entry := do
  match ← applicationNumber slot idleSlot.val.toUInt64 with
  | some i => fetch app.tasks i.toNat
  | none => return app.idle

theorem applicationNumber_self (idle : UInt64) : applicationNumber idle idle = .ok none := by
  simp [applicationNumber]

theorem applicationNumber_of_lt {slot idle : UInt64} (h : slot < idle) :
    applicationNumber slot idle = .ok (some slot) := by
  simp [applicationNumber, h, UInt64.ne_of_lt h]

/-- A word above another one is not zero, so that one can be subtracted from it. -/
theorem one_le_of_gt {a b : UInt64} (h : b < a) : 1 ≤ a :=
  UInt64.le_iff_toNat_le.mpr (Nat.succ_le_of_lt (Nat.zero_lt_of_lt (UInt64.lt_iff_toNat_lt.mp h)))

theorem toNat_sub_one_of_gt {a b : UInt64} (h : b < a) : (a - 1).toNat = a.toNat - 1 :=
  UInt64.toNat_sub_of_le a 1 (one_le_of_gt h)

theorem applicationNumber_of_gt {slot idle : UInt64} (h : idle < slot) :
    applicationNumber slot idle = .ok (some (slot - 1)) := by
  rw [applicationNumber, if_neg (UInt64.ne_of_lt h).symm, if_neg (UInt64.lt_asymm h),
    subExact_of_le (one_le_of_gt h)]
  rfl

namespace Application

theorem entry_zero (app : Application) : app.entry 0 = .ok app.idle := rfl

theorem entry_of_pos (app : Application) {slot : UInt64} (h : 0 < slot) :
    app.entry slot = fetch app.tasks (slot - 1).toNat := by
  have hn : applicationNumber slot idleSlot.val.toUInt64 = .ok (some (slot - 1)) :=
    applicationNumber_of_gt h
  rw [entry, hn]
  rfl

/-- The routines come one slot after the idle one. -/
theorem entry_succ (app : Application) {i : Nat} (h : i < 4) :
    app.entry (i + 1).toUInt64 = .ok app.tasks[i] := by
  have hlt : i + 1 < UInt64.size := Nat.lt_trans (Nat.succ_lt_succ h) (by decide)
  have hn : ((i + 1).toUInt64).toNat = i + 1 := UInt64.toNat_ofNat_of_lt' hlt
  have hpos : (0 : UInt64) < (i + 1).toUInt64 := by
    rw [UInt64.lt_iff_toNat_lt, hn]
    exact Nat.succ_pos i
  have hi : ((i + 1).toUInt64 - 1).toNat = i := by
    rw [toNat_sub_one_of_gt hpos, hn, Nat.add_sub_cancel]
  rw [entry_of_pos app hpos, hi, fetch_of_lt _ h]

end Application
end RoundRobin
