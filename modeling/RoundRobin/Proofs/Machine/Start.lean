import RoundRobin.Proofs.Machine.Conduct

/-!
Starting the scheduler. Before that, device registers may be written, the hardware set up, the task
table filled, ticks counted and delays asked for, in any order. A start after the table has been
filled halts the processor and leaves everything as it is; any other goes through, and of what
happened before only the device registers show in its result. Main statement:
`start_all_or_nothing`.
-/

namespace RoundRobin

/-- Whether an event may come before the start. -/
def Event.prepares : Event → Bool
  | .poke _ _ | .setUp _ | .populate _ | .clock | .delay _ => true
  | _ => false

/-- Whether an event is an attempt to fill the task table. -/
def Event.fills : Event → Bool
  | .populate _ => true
  | _ => false

theorem Event.fills_iff {e : Event} : e.fills = true ↔ ∃ app, e = .populate app := by
  cases e <;> simp [fills]

namespace Machine

variable {m : Machine} {filled : Bool}

/-- A machine on which no task has run yet. Its task table has been filled or not. -/
structure Unstarted (m : Machine) (filled : Bool) : Prop where
  current : m.kernel.current.toNat < 5
  cpu : m.cpu = blank.cpu
  main : m.main = blank.main
  populated : m.kernel.populated = filled
  arena : filled = false → m.kernel.arena = .zeroed

theorem unstarted_blank : blank.Unstarted false := ⟨by decide, rfl, rfl, rfl, fun _ => rfl⟩

theorem act_populate_of_false (h : m.kernel.populated = false) (app : Application) :
    m.act (.event (.populate app)) = { m with kernel := m.kernel.filled app } := by
  have hk := onKernel_of_ok (Kernel.populate_of_false h app)
  exact act_of_ok (Action.bind_of_ok hk)

theorem Unstarted.act (h : m.Unstarted filled) {e : Event} (he : e.prepares = true) :
    (m.act (.event e)).Unstarted (filled || e.fills) := by
  -- Ticks, delays and writes to device registers change nothing that the structure speaks of.
  have kept (hf : e.fills = false) (hm : (m.act (.event e)).Unstarted filled) :
      (m.act (.event e)).Unstarted (filled || e.fills) := by
    rw [hf, Bool.or_false]
    exact hm
  cases e with
  | poke r v => exact kept rfl ⟨h.current, h.cpu, h.main, h.populated, h.arena⟩
  | setUp c => exact kept rfl ⟨h.current, h.cpu, h.main, h.populated, h.arena⟩
  | populate app =>
    cases filled with
    | true =>
      rw [act_populate h.populated]
      exact h
    | false =>
      rw [act_populate_of_false h.populated]
      exact ⟨Scheduler.current_fresh app, h.cpu, h.main, rfl, nofun⟩
  | clock =>
    refine kept rfl ?_
    rw [act_clock]
    split
    · exact ⟨h.current, h.cpu, h.main, h.populated, h.arena⟩
    · exact h
  | delay n =>
    refine kept rfl ?_
    rw [act_delay h.current]
    split
    · exact ⟨h.current, h.cpu, h.main, h.populated, h.arena⟩
    · exact h
  | _ => cases he

theorem run_cons_of_not_halted {e : Event} (h : ((step e).outcome m).1 ≠ .ok .halted)
    (es : List Event) : m.run (e :: es) = (m.act (.event e)).run es := by
  rw [run]
  split
  · next heq => exact absurd (congrArg Prod.fst heq) h
  · next heq => rw [act, heq]

theorem outcome_bind_ne_halted {α : Type} {a : Action Machine α} {f : α → Answer}
    (hf : ∀ r, f r ≠ .halted) : ((a >>= fun r => pure (f r)).outcome m).1 ≠ .ok .halted := by
  cases ha : a m with
  | ok r n =>
    have hb : (a >>= fun r => pure (f r)) m = .ok (f r) n := Action.bind_of_ok ha
    rw [Action.outcome_of_ok hb]
    exact fun he => hf r (Except.ok.inj he)
  | error e n =>
    rw [Action.outcome_of_error (Action.bind_of_error ha)]
    exact nofun

/-- Only the start itself can halt the processor. -/
theorem step_ne_halted {e : Event} (he : e.prepares = true) :
    ((step e).outcome m).1 ≠ .ok .halted := by
  cases e with
  | poke r v => exact nofun
  | setUp c => exact nofun
  | populate app => exact outcome_bind_ne_halted nofun
  | clock => exact outcome_bind_ne_halted nofun
  | delay n => exact outcome_bind_ne_halted nofun
  | _ => cases he

theorem Unstarted.run (h : m.Unstarted filled) {es : List Event}
    (hes : ∀ e ∈ es, e.prepares = true) : (m.run es).Unstarted (filled || es.any Event.fills) := by
  induction es generalizing m filled with
  | nil =>
    rw [List.any_nil, Bool.or_false]
    exact h
  | cons e es ih =>
    have he := hes e List.mem_cons_self
    rw [run_cons_of_not_halted (step_ne_halted he), List.any_cons, ← Bool.or_assoc]
    exact ih (h.act he) fun d hd => hes d (List.mem_cons_of_mem e hd)

/-- A start that is refused ends the run. -/
theorem run_start_of_true (h : m.kernel.populated = true) (app : Application) (es : List Event) :
    m.run (.start app :: es) = m.mask true := by
  have hs : step (.start app) m = .ok .halted (m.mask true) :=
    Action.bind_of_ok (start_of_true h app)
  rw [run, Action.outcome_of_ok hs]

/-- Of what happened before, the first start leaves nothing but the device registers. -/
theorem Unstarted.launched (h : m.Unstarted false) (app : Application) :
    m.launched app =
      (blank.launched app).mapPeripherals fun _ =>
        ((m.peripherals.setUp .faults).setUp .priorities).setUp .timer := by
  simp only [Machine.launched, mapPeripherals, Kernel.filled, h.cpu, h.main, h.arena rfl]
  rfl

/-- **A start is all or nothing.** Take any series of preparations from the blank machine. If the
task table was filled in it, the start is refused: the processor halts with interrupts masked,
nothing else has changed, and no later event has any effect. Otherwise it goes through: the table is
filled, interrupts are on, CONTROL and PSP are those of a task on the empty stack of the first slot,
the branch goes to that slot's entry point, the device registers are what the three set-up steps
make of them, the clock stands at zero and the first slot is current. Apart from the device
registers the machine is the one that the same start makes of the blank machine. -/
theorem start_all_or_nothing (es : List Event) (hes : ∀ e ∈ es, e.prepares = true)
    (app : Application) :
    let m := blank.run es
    (m.kernel.populated = true ↔ ∃ a, .populate a ∈ es) ∧
    (m.kernel.populated = true →
      step (.start app) m = .ok .halted { m with cpu := { m.cpu with masked := true } } ∧
      ∀ fs, m.run (.start app :: fs) = { m with cpu := { m.cpu with masked := true } }) ∧
    (m.kernel.populated = false →
      ∃ m', step (.start app) m = .ok (.registers m'.cpu.registers) m' ∧
        m'.kernel.populated = true ∧
        m'.cpu.masked = false ∧
        m'.cpu.control = .number processStackControl ∧
        m'.cpu.psp = .address (Arena.top firstSlot) ∧
        (∃ e, app.entry firstSlot.val.toUInt64 = .ok e ∧ m'.cpu.registers.pc = .entry e) ∧
        m'.peripherals = ((m.peripherals.setUp .faults).setUp .priorities).setUp .timer ∧
        m'.kernel.now = 0 ∧
        m'.kernel.current.toNat = firstSlot.val ∧
        m' = (blank.launched app).mapPeripherals fun _ => m'.peripherals) := by
  intro m
  have h : m.Unstarted (es.any Event.fills) := unstarted_blank.run hes
  refine ⟨?_, fun hp => ⟨?_, fun fs => run_start_of_true hp app fs⟩, fun hp => ?_⟩
  · rw [h.populated, List.any_eq_true]
    simp only [Event.fills_iff]
    constructor
    · rintro ⟨_, he, a, rfl⟩
      exact ⟨a, he⟩
    · rintro ⟨a, he⟩
      exact ⟨_, he, a, rfl⟩
  · exact Action.bind_of_ok (start_of_true hp app)
  · have hempty : es.any Event.fills = false := h.populated.symm.trans hp
    rw [hempty] at h
    exact ⟨m.launched app, Action.bind_of_ok (start_eq hp app), rfl, rfl, rfl, rfl,
      ⟨_, Application.entry_eq app firstSlot, rfl⟩, rfl, rfl, rfl, h.launched app⟩

/-- Ticks and a delay come first and leave no trace. Had the table been filled after them, the start
would have been refused. -/
theorem start_all_or_nothing_drill :
    let es : List Event := [.poke .shpr3 0x12345678, .setUp .request, .clock, .delay 3, .clock]
    let m := blank.run es
    let n := blank.run (es ++ [.populate .numbered])
    (∀ e ∈ es ++ [.populate .numbered], e.prepares = true) ∧
    m.kernel.now = 2 ∧ m.kernel.status? 1 = some .blocked ∧ m.kernel.populated = false ∧
    (∃ m', step (.start .numbered) m = .ok (.registers m'.cpu.registers) m' ∧
      m'.cpu.masked = false ∧ m'.cpu.psp = .address 512 ∧
      m'.cpu.registers.pc = .entry (.routine 1) ∧ m'.peripherals.shpr3 = 0xE0FF5678 ∧
      m'.kernel.now = 0 ∧ m'.kernel.current.toNat = 1) ∧
    n.kernel.populated = true ∧
    step (.start .numbered) n = .ok .halted { n with cpu := { n.cpu with masked := true } } := by
  intro es m n
  have hes : ∀ e ∈ es ++ [.populate .numbered], e.prepares = true := by decide +zetaReduce
  have hm : m.kernel.now = 2 ∧ m.kernel.status? 1 = some .blocked ∧ m.kernel.populated = false ∧
      m.peripherals.shpr3 = 0x12345678 ∧ n.kernel.populated = true := by
    decide +kernel +zetaReduce
  obtain ⟨hnow, hasleep, hempty, hshpr3, hfull⟩ := hm
  obtain ⟨-, -, hgo⟩ := start_all_or_nothing es
    (fun e he => hes e (List.mem_append_left _ he)) .numbered
  obtain ⟨m', hstep, -, hmask, -, hpsp, ⟨e, he, hpc⟩, hperipherals, hzero, hfirst, -⟩ := hgo hempty
  obtain ⟨-, hrefused, -⟩ := start_all_or_nothing (es ++ [.populate .numbered]) hes .numbered
  obtain rfl : .routine 1 = e := Except.ok.inj he
  have hrank : m'.peripherals.shpr3 = 0xE0FF5678 := by
    have hset : m'.peripherals.shpr3 = m.peripherals.rankExceptions.shpr3 := by
      rw [hperipherals]
      rfl
    rw [hset, Peripherals.rankExceptions_eq, hshpr3]
    decide
  exact ⟨hes, hnow, hasleep, hempty, ⟨m', hstep, hmask, hpsp, hpc, hrank, hzero, hfirst⟩, hfull,
    (hrefused hfull).1⟩

end Machine
end RoundRobin
