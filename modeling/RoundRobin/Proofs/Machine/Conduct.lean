import RoundRobin.Machine.Event
import RoundRobin.Proofs.Machine.Trap

/-!
What happens to the machine while tasks run: events, and whatever the running task makes of its
registers and its stack. Nothing but the running task moves its stack pointer, until the switch
takes it off; and as long as it keeps to its own region, only a taken switch touches anything that
another task relies on. Main statements: `still_act` and `steady_act`.
-/

namespace RoundRobin

/-- Something that happens while tasks run. The running task may leave anything in its registers and
in its region. -/
inductive Deed where
  | event (e : Event)
  | work (g : Registers) (psp : Int) (stack : Region)

/-- Whether the deed is the running task's own use of its stack. -/
def Deed.usesStack : Deed → Bool
  | .event (.push _) => true
  | .event (.pop _) => true
  | .work .. => true
  | _ => false

namespace Machine

variable {m m' : Machine} {p s : Int}

def resident (m : Machine) : Slot := m.kernel.resident

def work (m : Machine) (g : Registers) (p : Int) (r : Region) : Machine :=
  { m with
    cpu := { m.cpu with registers := g, psp := .address p }
    kernel := { m.kernel with arena := m.kernel.arena.setRegion m.resident r } }

/-- The machine after a deed, whether it faults, is refused, halts or goes through. -/
def act (m : Machine) : Deed → Machine
  | .event e => ((step e).outcome m).2
  | .work g p r => m.work g p r

def acts (m : Machine) (ds : List Deed) : Machine := ds.foldl act m

/-- Whether a deed is the switch exception and the processor takes it. -/
def takes (m : Machine) : Deed → Bool
  | .event .switch =>
    m.peripherals.isPending && !m.cpu.masked && (m.stackRoom contextWords 0).isSome
  | _ => false

/-- The process stack pointer lies in the current task's region, `room` words or more above the
region's base. -/
def Within (m : Machine) (room : Nat) : Prop :=
  ∃ p, m.cpu.psp = .address p ∧ Arena.base m.resident + room ≤ p ∧ p ≤ Arena.top m.resident

instance (m : Machine) (room : Nat) : Decidable (m.Within room) :=
  match h : m.cpu.psp with
  | .address p =>
    decidable_of_iff (Arena.base m.resident + room ≤ p ∧ p ≤ Arena.top m.resident)
      ⟨fun hp => ⟨p, h, hp⟩, fun ⟨_, hq, hp⟩ => Word.address.inj (h.symm.trans hq) ▸ hp⟩
  | .number _ => isFalse fun ⟨_, hq, _⟩ => nomatch h.symm.trans hq
  | .entry _ => isFalse fun ⟨_, hq, _⟩ => nomatch h.symm.trans hq

/-- The running task keeps its stack pointer in its region when it uses its stack, and has room
there for its context when it is taken off. Of what the kernel or the hardware does, nothing is
asked. -/
def Keeps (m : Machine) (d : Deed) : Prop :=
  if m.takes d then m.Within contextWords else d.usesStack = true → (m.act d).Within 0

instance (m : Machine) (d : Deed) : Decidable (m.Keeps d) :=
  inferInstanceAs (Decidable
    (if m.takes d then m.Within contextWords else d.usesStack = true → (m.act d).Within 0))

/-- Every running task keeps to its region. -/
def Orderly (m : Machine) : List Deed → Prop
  | [] => True
  | d :: ds => m.Keeps d ∧ (m.act d).Orderly ds

def decidableOrderly (m : Machine) : (ds : List Deed) → Decidable (m.Orderly ds)
  | [] => isTrue trivial
  | d :: ds =>
    have := decidableOrderly (m.act d) ds
    inferInstanceAs (Decidable (m.Keeps d ∧ (m.act d).Orderly ds))

instance (m : Machine) (ds : List Deed) : Decidable (m.Orderly ds) := m.decidableOrderly ds

theorem orderly_append {ds es : List Deed} :
    m.Orderly (ds ++ es) ↔ m.Orderly ds ∧ (m.acts ds).Orderly es := by
  induction ds generalizing m with
  | nil => exact ⟨fun h => ⟨trivial, h⟩, fun h => h.2⟩
  | cons d ds ih => rw [List.cons_append, Orderly, Orderly, ih, and_assoc]; rfl

/-! ## Launching the first task -/

theorem onKernel_of_ok {α : Type} {a : Action (Kernel Peripherals) α} {r : α}
    {k : Kernel Peripherals} (h : a m.kernel = .ok r k) :
    onKernel a m = .ok r { m with kernel := k } := by
  simp only [onKernel, Action.on, h]

theorem onKernel_of_error {α : Type} {a : Action (Kernel Peripherals) α} {e : Fault}
    (h : a m.kernel = .error e m.kernel) : onKernel a m = .error e m := by
  simp only [onKernel, Action.on, h]

/-- A second start halts the processor and changes nothing else. -/
theorem start_of_true (h : m.kernel.populated = true) (app : Application) :
    start app m = .ok false (m.mask true) := by
  have hk := onKernel_of_ok (m := m.mask true) (Kernel.populate_of_true h app)
  rw [start, Action.modify_bind, Action.bind_of_ok hk]
  rfl

/-- The machine that runs the first task of an application. -/
def launched (m : Machine) (app : Application) : Machine where
  cpu :=
    { m.cpu with
      registers := .atEntry (.entry (app.bound firstSlot))
      psp := .address (Arena.top firstSlot)
      control := .number processStackControl
      masked := false }
  kernel :=
    { m.kernel.filled app with
      signal := m.kernel.signal.enableFaults.rankExceptions.startTimer }
  main := m.main

theorem executeAll_launchCode {callee : Action Machine Unit} (m : Machine) :
    executeAll callee launchCode m = .ok ()
      { m with
        cpu :=
          { m.cpu with
            registers := m.cpu.registers.set .pc (m.reg (.r 2))
            psp := m.reg (.r 0)
            control := m.reg (.r 1)
            masked := false } } := rfl

theorem launch_eq (m : Machine) (t w : Word) :
    launch t w m = .ok ()
      { m with
        cpu :=
          { m.cpu with
            registers := .atEntry w
            psp := t
            control := .number processStackControl
            masked := false } } := by
  obtain ⟨n, hn⟩ : ∃ n, n = m.setRegs [.r 0, .r 1, .r 2] [t, .number processStackControl, w] :=
    ⟨_, rfl⟩
  have h₀ : n.reg (.r 0) = t := by simp [hn]
  have h₁ : n.reg (.r 1) = .number processStackControl := by simp [hn]
  have h₂ : n.reg (.r 2) = w := by simp [hn]
  rw [launch, Action.modify_bind, ← hn, Action.bind_of_ok (executeAll_launchCode n), h₀, h₁, h₂, hn]
  rfl

theorem start_eq (h : m.kernel.populated = false) (app : Application) :
    start app m = .ok true (m.launched app) := by
  have hk := onKernel_of_ok (m := m.mask true) (Kernel.populate_of_false h app)
  have he : ((Scheduler.fresh app).record firstSlot).entry = app.bound firstSlot :=
    congrArg Record.entry (Scheduler.record_fresh app firstSlot)
  have hp : position 5 (Scheduler.fresh app).current = .ok firstSlot := rfl
  simp only [start, Action.modify_bind, Action.bind_of_ok hk, Action.get_bind, mapPeripherals,
    Kernel.filled, hp, Action.ofExcept_ok_bind, Action.bind_of_ok (launch_eq _ _ _), he]
  rfl

/-- A start that goes through is the first one. -/
theorem launched_of_start {app : Application} (h : start app m = .ok true m') :
    m.kernel.populated = false ∧ m' = m.launched app := by
  cases hp : m.kernel.populated with
  | true =>
    rw [start_of_true hp] at h
    cases h
  | false =>
    rw [start_eq hp] at h
    cases h
    exact ⟨rfl, rfl⟩

/-! ## What a deed leaves alone -/

theorem resident_eq_of_current (h : m'.kernel.current = m.kernel.current) :
    m'.resident = m.resident := Scheduler.resident_congr h

/-- Between `m` and `m'` nothing has changed that the tasks off the processor rely on. -/
structure Steady (m m' : Machine) : Prop where
  current : m'.kernel.current = m.kernel.current
  pointers : ∀ j, (m'.kernel.record j).stackPointer = (m.kernel.record j).stackPointer
  populated : m'.kernel.populated = m.kernel.populated
  msp : m'.cpu.msp = m.cpu.msp
  elsewhere : ∀ a, a < Arena.base m.resident ∨ Arena.top m.resident ≤ a → m'.load a = m.load a

/-- Between `m` and `m'` no stack and no stack pointer has changed, nor whose turn it is. -/
structure Still (m m' : Machine) : Prop where
  current : m'.kernel.current = m.kernel.current
  psp : m'.cpu.psp = m.cpu.psp
  pointers : ∀ j, (m'.kernel.record j).stackPointer = (m.kernel.record j).stackPointer
  populated : m'.kernel.populated = m.kernel.populated
  msp : m'.cpu.msp = m.cpu.msp
  arena : m'.kernel.arena = m.kernel.arena
  main : m'.main = m.main

theorem Still.refl (m : Machine) : m.Still m := ⟨rfl, rfl, fun _ => rfl, rfl, rfl, rfl, rfl⟩

theorem Still.of_eq (h : m' = m) : m.Still m' := h ▸ .refl m

theorem Still.steady (h : m.Still m') : m.Steady m' := by
  refine ⟨h.current, h.pointers, h.populated, h.msp, fun a _ => ?_⟩
  rw [load, load, h.arena, h.main]

theorem Still.within {room : Nat} (h : m.Still m') (hw : m.Within room) : m'.Within room := by
  obtain ⟨p, hp, hr⟩ := hw
  rw [← resident_eq_of_current h.current] at hr
  exact ⟨p, h.psp.trans hp, hr⟩

theorem stackRoom_eq_some {below above : Nat} (h : m.stackRoom below above = some p) :
    m.cpu.psp = .address p ∧ below ≤ p ∧ p + above ≤ 1280 := by
  unfold stackRoom at h
  split at h
  · next hp =>
    split at h
    · next hc =>
      cases h
      exact ⟨hp, hc.2.2.1, hc.2.2.2⟩
    · cases h
  · cases h

theorem act_of_ok {e : Event} {a : Answer} (h : step e m = .ok a m') : m.act (.event e) = m' := by
  rw [act, Action.outcome_of_ok h]

theorem act_of_error {e : Event} {f : Fault} (h : step e m = .error f m') :
    m.act (.event e) = m' := by
  rw [act, Action.outcome_of_error h]

theorem switch_of_takes (h : m.takes (.event .switch) = true) :
    (∃ p, m.stackRoom contextWords 0 = some p) ∧
      step .switch m =
        (takeSwitch >>= fun _ => return Answer.registers (← get).cpu.registers) m := by
  simp only [takes, Bool.and_eq_true, Bool.not_eq_true'] at h
  obtain ⟨⟨hp, hm⟩, hr⟩ := h
  refine ⟨Option.isSome_iff_exists.mp hr, ?_⟩
  have hn : (m.stackRoom contextWords 0).isNone = false := by
    rw [← Option.not_isSome, hr]
    rfl
  simp only [step, switch, Action.get_bind, hp, hm, hn]
  rfl

theorem act_switch (h : m.takes (.event .switch) = false) : m.act (.event .switch) = m := by
  have hs : ∃ a, step .switch m = .ok a m := by
    simp only [takes] at h
    simp only [step, switch, Action.get_bind]
    by_cases hc : (!m.peripherals.isPending || m.cpu.masked) = true
    · rw [if_pos hc]
      exact ⟨_, rfl⟩
    · have hn : (m.stackRoom contextWords 0).isNone = true := by
        simp only [Bool.or_eq_true, Bool.not_eq_true', not_or, Bool.not_eq_false] at hc
        simpa [hc.1, hc.2] using h
      rw [if_neg hc, if_pos hn]
      exact ⟨_, rfl⟩
  obtain ⟨a, ha⟩ := hs
  exact act_of_ok ha

theorem act_populate (h : m.kernel.populated = true) (app : Application) :
    m.act (.event (.populate app)) = m := by
  have hk := onKernel_of_ok (Kernel.populate_of_true h app)
  exact act_of_ok (Action.bind_of_ok hk)

theorem act_clock (m : Machine) :
    m.act (.event .clock) = if m.kernel.now.toNat + 1 < UInt64.size then
      { m with kernel := (m.kernel.withScheduler m.kernel.scheduler.ticked).pended } else m := by
  split
  · next h =>
    have hk := onKernel_of_ok (Kernel.tick_eq h)
    exact act_of_ok (Action.bind_of_ok hk)
  · next h =>
    have hk := onKernel_of_error (Kernel.tick_of_le (Nat.not_lt.mp h))
    exact act_of_error (Action.bind_of_error hk)

theorem act_delay (hc : m.kernel.current.toNat < 5) (n : UInt32) :
    m.act (.event (.delay n)) =
      if m.kernel.resident ≠ idleSlot ∧ m.kernel.now.toNat + n.toNat < UInt64.size then
        { m with kernel := (m.kernel.withScheduler (m.kernel.scheduler.slept n)).pended }
      else m := by
  by_cases hi : m.kernel.resident = idleSlot
  · rw [if_neg fun h => h.1 hi]
    have hk := onKernel_of_ok (Kernel.delay_of_idle hc hi n)
    exact act_of_ok (Action.bind_of_ok hk)
  · split
    · next h =>
      have hk := onKernel_of_ok (Kernel.delay_eq hc hi h.2)
      exact act_of_ok (Action.bind_of_ok hk)
    · next h =>
      have hn := Nat.not_lt.mp fun hn => h ⟨hi, hn⟩
      have hk := onKernel_of_error (Kernel.delay_of_le hc hi hn)
      exact act_of_error (Action.bind_of_error hk)

theorem act_start (h : m.kernel.populated = true) (app : Application) :
    m.act (.event (.start app)) = m.mask true :=
  act_of_ok (Action.bind_of_ok (start_of_true h app))

/-! ## Pushes and pops -/

theorem cpu_pushAll (m : Machine) (p : Int) (ws : List Word) :
    (m.pushAll p ws).cpu = { m.cpu with psp := .address (p - ws.length) } := by
  induction ws generalizing m p with
  | nil =>
    rw [List.length_nil, Int.natCast_zero, Int.sub_zero]
    rfl
  | cons w ws ih =>
    rw [pushAll, ih, cpu_store, List.length_cons, show p - 1 - (ws.length : Int) =
      p - ((ws.length + 1 : Nat) : Int) by omega]

theorem kernel_pushAll (m : Machine) (p : Int) (ws : List Word) :
    (m.pushAll p ws).kernel = { m.kernel with arena := (m.pushAll p ws).kernel.arena } := by
  induction ws generalizing m p with
  | nil => rfl
  | cons w ws ih => rw [pushAll, ih, kernel_store]

theorem load_pushAll_of_outside {a : Int} {ws : List Word} (h : a < p - ws.length ∨ p ≤ a) :
    (m.pushAll p ws).load a = m.load a := by
  induction ws generalizing m p with
  | nil => rfl
  | cons w ws ih =>
    rw [List.length_cons] at h
    rw [pushAll, ih (by omega), load_store, if_neg (by omega)]

theorem act_push (m : Machine) (ws : List Word) :
    m.act (.event (.push ws)) = m ∨
      ∃ p, m.cpu.psp = .address p ∧ m.act (.event (.push ws)) = m.pushAll p ws := by
  cases hr : m.stackRoom ws.length 0 with
  | none =>
    have hs : step (.push ws) m = .ok .refused m := by
      simp only [step, push, Action.get_bind, hr]
      rfl
    exact .inl (act_of_ok hs)
  | some p =>
    have hs : step (.push ws) m = .ok .done (m.pushAll p ws) := by
      simp only [step, push, Action.get_bind, hr]
      rfl
    exact .inr ⟨p, (stackRoom_eq_some hr).1, act_of_ok hs⟩

theorem act_pop (m : Machine) (n : Nat) :
    m.act (.event (.pop n)) = m ∨ ∃ p, m.act (.event (.pop n)) = m.setPsp (.address p) := by
  cases hr : m.stackRoom 0 n with
  | none =>
    have hs : step (.pop n) m = .ok .refused m := by
      simp only [step, pop, Action.get_bind, hr]
      rfl
    exact .inl (act_of_ok hs)
  | some p =>
    have hs : step (.pop n) m = .ok (.words (m.loadAll p n)) (m.setPsp (.address (p + n))) := by
      simp only [step, pop, Action.get_bind, hr]
      rfl
    exact .inr ⟨p + n, act_of_ok hs⟩

/-! ## Deeds -/

/-- Nothing but a taken switch and the running task's use of its stack moves a stack pointer,
changes a word of the stacks or passes the turn on. -/
theorem still_act {d : Deed} (hc : m.kernel.current.toNat < 5) (hp : m.kernel.populated = true)
    (ht : m.takes d = false) (hd : d.usesStack = false) : m.Still (m.act d) := by
  cases d with
  | event e =>
    cases e with
    | poke r v => exact ⟨rfl, rfl, fun _ => rfl, rfl, rfl, rfl, rfl⟩
    | setUp c => exact ⟨rfl, rfl, fun _ => rfl, rfl, rfl, rfl, rfl⟩
    | populate app => exact .of_eq (act_populate hp app)
    | start app =>
      rw [act_start hp]
      exact ⟨rfl, rfl, fun _ => rfl, rfl, rfl, rfl, rfl⟩
    | clock =>
      rw [act_clock]
      split
      · exact ⟨rfl, rfl, Scheduler.stackPointer_ticked _, rfl, rfl, rfl, rfl⟩
      · exact .refl m
    | delay n =>
      rw [act_delay hc]
      split
      · exact ⟨rfl, rfl, Scheduler.stackPointer_slept _ n, rfl, rfl, rfl, rfl⟩
      · exact .refl m
    | setRegisters g => exact ⟨rfl, rfl, fun _ => rfl, rfl, rfl, rfl, rfl⟩
    | readRegisters => exact .refl m
    | push ws => cases hd
    | pop n => cases hd
    | switch => exact .of_eq (act_switch ht)
    | fault => exact ⟨rfl, rfl, fun _ => rfl, rfl, rfl, rfl, rfl⟩
    | halt => exact ⟨rfl, rfl, fun _ => rfl, rfl, rfl, rfl, rfl⟩
  | work g p r => cases hd

theorem within_of_keeps {d : Deed} (ht : m.takes d = true) (hk : m.Keeps d) :
    m.Within contextWords := by
  rwa [Keeps, if_pos ht] at hk

/-- After every deed but a taken switch the stack pointer is where the running task keeps it. -/
theorem within_act {d : Deed} (hc : m.kernel.current.toNat < 5) (hp : m.kernel.populated = true)
    (hw : m.Within 0) (ht : m.takes d = false) (hk : m.Keeps d) : (m.act d).Within 0 := by
  rw [Keeps, if_neg (Bool.eq_false_iff.mp ht)] at hk
  cases hd : d.usesStack with
  | true => exact hk hd
  | false => exact (still_act hc hp ht hd).within hw

/-- Of the processor and the kernel, a task that uses its stack changes nothing but its registers,
its stack pointer and the stacks. -/
theorem act_of_usesStack {d : Deed} (hd : d.usesStack = true) :
    (∃ g w, (m.act d).cpu = { m.cpu with registers := g, psp := w }) ∧
      (m.act d).kernel = { m.kernel with arena := (m.act d).kernel.arena } := by
  cases d with
  | event e =>
    cases e with
    | push ws =>
      rcases act_push m ws with h | ⟨p, -, h⟩
      · rw [h]
        exact ⟨⟨_, _, rfl⟩, rfl⟩
      · rw [h]
        exact ⟨⟨_, _, cpu_pushAll m p ws⟩, kernel_pushAll m p ws⟩
    | pop n =>
      rcases act_pop m n with h | ⟨p, h⟩
      · rw [h]
        exact ⟨⟨_, _, rfl⟩, rfl⟩
      · rw [h]
        exact ⟨⟨_, _, rfl⟩, rfl⟩
    | _ => cases hd
  | work g p r => exact ⟨⟨_, _, rfl⟩, rfl⟩

/-- A task that keeps its stack pointer in its region writes nowhere else. -/
theorem load_act_of_usesStack {d : Deed} {a : Int} (hd : d.usesStack = true) (hw : m.Within 0)
    (hn : (m.act d).Within 0) (ha : a < Arena.base m.resident ∨ Arena.top m.resident ≤ a) :
    (m.act d).load a = m.load a := by
  cases d with
  | event e =>
    cases e with
    | push ws =>
      rcases act_push m ws with h | ⟨p, hp, h⟩
      · rw [h]
      · obtain ⟨b, hb, -, htop⟩ := hw
        obtain rfl : p = b := Word.address.inj (hp.symm.trans hb)
        obtain ⟨c, hc, hlow, -⟩ := hn
        have hr : (m.pushAll p ws).resident = m.resident := by
          rw [resident, kernel_pushAll]
          rfl
        rw [h, cpu_pushAll] at hc
        cases hc
        rw [h, hr] at hlow
        rw [h]
        exact load_pushAll_of_outside (by omega)
    | pop n =>
      rcases act_pop m n with h | ⟨p, h⟩
      · rw [h]
      · rw [h]
        rfl
    | _ => cases hd
  | work g p r =>
    refine load_of_region (m := m) (n := m.work g p r) (j := m.resident) rfl (fun i hi => ?_) ha
    exact (Arena.region_setRegion _ _ _ _).trans (if_neg (Ne.symm hi))

/-- A deed during which the tasks off the processor rely on nothing that changes. -/
theorem steady_act {d : Deed} (hc : m.kernel.current.toNat < 5) (hp : m.kernel.populated = true)
    (hw : m.Within 0) (ht : m.takes d = false) (hk : m.Keeps d) : m.Steady (m.act d) := by
  cases hd : d.usesStack with
  | false => exact (still_act hc hp ht hd).steady
  | true =>
    obtain ⟨⟨g, w, hcpu⟩, hkernel⟩ := act_of_usesStack (m := m) hd
    refine ⟨?_, fun j => ?_, ?_, ?_, ?_⟩
    · rw [hkernel]
      rfl
    · rw [hkernel]
      rfl
    · rw [hkernel]
    · rw [hcpu]
    · exact fun a => load_act_of_usesStack hd hw (within_act hc hp hw ht hk)

end Machine
end RoundRobin
