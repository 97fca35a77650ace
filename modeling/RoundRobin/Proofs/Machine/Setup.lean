import Mathlib.Data.List.Dedup
import RoundRobin.Proofs.Machine.Bits

/-!
Setting up the hardware. No two steps touch the same register, and a step that is taken once more
changes nothing; so the order of the steps does not matter, nor how often each is taken. Main
statement: `setUp_in_any_order`.
-/

namespace RoundRobin
namespace Peripherals

/-! ## What each step leaves -/

theorem testBit_startTimer (p : Peripherals) {i : UInt32} (hi : i < 32) :
    testBit p.startTimer.systCsr i = (decide (i ≤ 2) || testBit p.systCsr i) := by
  have hbits : i = 2 ∨ i = 1 ∨ i = 0 ↔ i ≤ 2 := by
    simp only [← UInt32.toNat_inj, UInt32.le_iff_toNat_le]
    show i.toNat = 2 ∨ i.toNat = 1 ∨ i.toNat = 0 ↔ i.toNat ≤ 2
    omega
  rw [startTimer_eq, testBit_setBits _ (by decide) (by decide) (by decide) hi]
  simp only [hbits]

theorem testBit_enableFaults (p : Peripherals) {i : UInt32} (hi : i < 32) :
    testBit p.enableFaults.shcsr i =
      (decide (16 ≤ i ∧ i ≤ 18) || testBit p.shcsr i) := by
  have hbits : i = 16 ∨ i = 17 ∨ i = 18 ↔ 16 ≤ i ∧ i ≤ 18 := by
    simp only [← UInt32.toNat_inj, UInt32.le_iff_toNat_le]
    show i.toNat = 16 ∨ i.toNat = 17 ∨ i.toNat = 18 ↔ 16 ≤ i.toNat ∧ i.toNat ≤ 18
    omega
  rw [enableFaults_eq, testBit_setBits _ (by decide) (by decide) (by decide) hi]
  simp only [hbits]

theorem testBit_pendSwitch (p : Peripherals) {i : UInt32} (hi : i < 32) :
    testBit p.pendSwitch.icsr i = decide (i = 28) := by
  have hzero : testBit 0 i = false := by
    rw [testBit, UInt32.zero_and]
    rfl
  rw [pendSwitch_eq, testBit_setBit 0 (by decide) hi, hzero, Bool.or_false]
  simp only [eq_comm]

theorem byte_rankExceptions (p : Peripherals) {k : UInt32} (hk : k < 4) :
    byte p.rankExceptions.shpr3 k =
      if k = 3 then 0xE0 else if k = 2 then 0xFF else byte p.shpr3 k := by
  rw [rankExceptions_eq, byte_setByte _ (by decide) hk (by decide),
    byte_setByte _ (by decide) hk (by decide)]
  rfl

/-- The lower half of the register belongs to other exceptions. -/
theorem testBit_rankExceptions (p : Peripherals) {i : UInt32} (hi : i < 16) :
    testBit p.rankExceptions.shpr3 i = testBit p.shpr3 i := by
  have hin : i.toNat < 16 := hi
  have hi' : i < 32 := UInt32.lt_trans hi (by decide)
  have hbyte (k : UInt32) (hk : 2 ≤ k) : i / 8 ≠ k := by
    have hkn : 2 ≤ k.toNat := hk
    have hdiv : (i / 8).toNat = i.toNat / 8 := rfl
    rw [Ne, ← UInt32.toNat_inj, hdiv]
    omega
  rw [rankExceptions_eq, testBit_setByte _ (by decide) (by decide) hi',
    if_neg (hbyte 3 (by decide)), testBit_setByte _ (by decide) (by decide) hi',
    if_neg (hbyte 2 (by decide))]

/-! ## Steps in any order -/

/-- Steps taken one after the other. -/
def setUpAll (p : Peripherals) (cs : List Setup) : Peripherals := cs.foldl setUp p

/-- No two steps touch the same register. -/
theorem setUp_comm (p : Peripherals) (c d : Setup) :
    (p.setUp c).setUp d = (p.setUp d).setUp c := by
  cases c <;> cases d <;>
    simp only [setUp, startTimer_eq, rankExceptions_eq, enableFaults_eq, pendSwitch_eq]

theorem setUp_idem (p : Peripherals) (c : Setup) : (p.setUp c).setUp c = p.setUp c := by
  cases c with
  | timer =>
    have h := setBits_idem p.systCsr (i := 2) (j := 1) (k := 0) (by decide) (by decide) (by decide)
    simp only [setUp, startTimer_eq, h]
  | priorities =>
    have h := setBytes_idem p.shpr3 (i := 2) (k := 3) (b := switchPriority) (c := tickPriority)
      (by decide) (by decide) (by decide) (by decide)
    simp only [setUp, rankExceptions_eq, h]
  | faults =>
    have h := setBits_idem p.shcsr (i := 16) (j := 17) (k := 18) (by decide) (by decide) (by decide)
    simp only [setUp, enableFaults_eq, h]
  | request => rfl

/-- What is done later on need not be done now. -/
theorem setUpAll_setUp_of_mem {cs : List Setup} {c : Setup} (h : c ∈ cs) (p : Peripherals) :
    (p.setUp c).setUpAll cs = p.setUpAll cs := by
  induction cs generalizing p with
  | nil => cases h
  | cons d cs ih =>
    simp only [setUpAll, List.foldl_cons] at ih ⊢
    -- The step is carried past the others until it meets itself.
    rcases List.mem_cons.mp h with rfl | hc
    · rw [setUp_idem]
    · rw [setUp_comm, ih hc]

theorem setUpAll_dedup (p : Peripherals) (cs : List Setup) :
    p.setUpAll cs.dedup = p.setUpAll cs := by
  induction cs generalizing p with
  | nil => rfl
  | cons c cs ih =>
    have hcons : p.setUpAll (c :: cs) = (p.setUp c).setUpAll cs := rfl
    by_cases h : c ∈ cs
    · rw [List.dedup_cons_of_mem h, ih, hcons, setUpAll_setUp_of_mem h]
    · rw [List.dedup_cons_of_notMem h, hcons, ← ih]
      rfl

/-- Only which steps are taken matters. -/
theorem setUpAll_congr {cs ds : List Setup} (h : ∀ c, c ∈ cs ↔ c ∈ ds) (p : Peripherals) :
    p.setUpAll cs = p.setUpAll ds := by
  have hperm : cs.dedup.Perm ds.dedup := by
    rw [List.perm_ext_iff_of_nodup (List.nodup_dedup cs) (List.nodup_dedup ds)]
    simpa using h
  rw [← setUpAll_dedup p cs, ← setUpAll_dedup p ds]
  exact hperm.foldl_eq' (fun c _ d _ q => setUp_comm q c d) p

/-- After all four steps every register is as its own step has left it. -/
theorem each_step_once_eq (p : Peripherals) :
    p.startTimer.rankExceptions.enableFaults.pendSwitch =
      { systCsr := p.startTimer.systCsr
        systRvr := timerReload
        systCvr := 0
        icsr := p.pendSwitch.icsr
        shpr3 := p.rankExceptions.shpr3
        shcsr := p.enableFaults.shcsr } := by
  simp only [startTimer_eq, rankExceptions_eq, enableFaults_eq, pendSwitch_eq]

/-- **The hardware is set up whatever the order.** Take any contents of the device registers and any
series of steps in which each of the four is taken at least once. What the registers hold in the end
does not depend on the series: the timer's three enabling bits are set and the others kept, it is
reloaded with `timerReload` and starts from zero; the pending bit of the switch is the only one in
its register; the switch has priority 0xFF, the tick 0xE0, and the lower half of their register is
kept; the enabling bits of the three faults are set and the others kept. So the tick always ranks
above the switch. -/
theorem setUp_in_any_order (p : Peripherals) (cs : List Setup) (h : ∀ c, c ∈ cs) :
    (∀ ds : List Setup, (∀ c, c ∈ ds) → p.setUpAll ds = p.setUpAll cs) ∧
    (∀ i < 32, testBit (p.setUpAll cs).systCsr i =
      (decide (i ≤ 2) || testBit p.systCsr i)) ∧
    (p.setUpAll cs).systRvr = timerReload ∧
    (p.setUpAll cs).systCvr = 0 ∧
    (∀ i < 32, testBit (p.setUpAll cs).icsr i = decide (i = 28)) ∧
    byte (p.setUpAll cs).shpr3 2 = 0xFF ∧
    byte (p.setUpAll cs).shpr3 3 = 0xE0 ∧
    (∀ i < 16, testBit (p.setUpAll cs).shpr3 i = testBit p.shpr3 i) ∧
    (∀ i < 32, testBit (p.setUpAll cs).shcsr i =
      (decide (16 ≤ i ∧ i ≤ 18) || testBit p.shcsr i)) ∧
    byte (p.setUpAll cs).shpr3 3 < byte (p.setUpAll cs).shpr3 2 := by
  have hsame (ds : List Setup) (hd : ∀ c, c ∈ ds) : p.setUpAll ds = p.setUpAll cs :=
    setUpAll_congr (fun c => iff_of_true (hd c) (h c)) p
  have hready : p.setUpAll cs = p.startTimer.rankExceptions.enableFaults.pendSwitch :=
    (hsame [.timer, .priorities, .faults, .request] fun c => by cases c <;> decide).symm
  refine ⟨hsame, ?_⟩
  rw [hready, each_step_once_eq]
  have hswitch : byte p.rankExceptions.shpr3 2 = 0xFF := byte_rankExceptions p (by decide)
  have htick : byte p.rankExceptions.shpr3 3 = 0xE0 := byte_rankExceptions p (by decide)
  refine ⟨fun i => testBit_startTimer p, rfl, rfl, fun i => testBit_pendSwitch p, hswitch, htick,
    fun i => testBit_rankExceptions p, fun i => testBit_enableFaults p, ?_⟩
  have hrank : byte p.rankExceptions.shpr3 3 < byte p.rankExceptions.shpr3 2 := by
    rw [hswitch, htick]
    decide
  exact hrank

/-- Registers that are not zero before, and a series in which some steps come twice. -/
theorem setUp_in_any_order_crowded :
    let p : Peripherals := ⟨0x10000, 5, 6, 0xFFFFFFFF, 0x12345678, 0x80000001⟩
    let cs : List Setup := [.request, .faults, .timer, .faults, .priorities, .timer]
    (∀ c, c ∈ cs) ∧ p.setUpAll cs.reverse = p.setUpAll cs ∧
    testBit (p.setUpAll cs).systCsr 1 = true ∧ testBit (p.setUpAll cs).systCsr 16 = true ∧
    (p.setUpAll cs).systRvr = 15999 ∧ (p.setUpAll cs).systCvr = 0 ∧
    testBit (p.setUpAll cs).icsr 28 = true ∧ testBit (p.setUpAll cs).icsr 31 = false ∧
    byte (p.setUpAll cs).shpr3 2 = 0xFF ∧ byte (p.setUpAll cs).shpr3 3 = 0xE0 ∧
    testBit (p.setUpAll cs).shpr3 3 = true ∧ testBit (p.setUpAll cs).shpr3 8 = false ∧
    testBit (p.setUpAll cs).shcsr 17 = true ∧ testBit (p.setUpAll cs).shcsr 31 = true ∧
    byte (p.setUpAll cs).shpr3 3 < byte (p.setUpAll cs).shpr3 2 := by
  intro p cs
  have hall : ∀ c, c ∈ cs := fun c => by cases c <;> decide
  have hback : ∀ c, c ∈ cs.reverse := fun c => List.mem_reverse.mpr (hall c)
  obtain ⟨hsame, htimer, hreload, hclear, hpending, hswitch, htick, hlow, hfaults, hrank⟩ :=
    setUp_in_any_order p cs hall
  have hkept : testBit p.systCsr 16 = true ∧ testBit p.shpr3 3 = true ∧
      testBit p.shpr3 8 = false ∧ testBit p.shcsr 31 = true := by
    decide +zetaReduce
  obtain ⟨hsource, hset, hclear', hforeign⟩ := hkept
  refine ⟨hall, hsame _ hback, htimer 1 (by decide), (htimer 16 (by decide)).trans ?_, hreload,
    hclear, hpending 28 (by decide), hpending 31 (by decide), hswitch, htick,
    (hlow 3 (by decide)).trans hset, (hlow 8 (by decide)).trans hclear', hfaults 17 (by decide),
    (hfaults 31 (by decide)).trans ?_, hrank⟩
  · rw [hsource, Bool.or_true]
  · rw [hforeign, Bool.or_true]

end Peripherals
end RoundRobin
