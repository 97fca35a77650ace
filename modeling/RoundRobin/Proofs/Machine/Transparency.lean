import RoundRobin.Proofs.Machine.Conduct

/-!
Tasks do not notice each other. Whenever the switch brings a task back, its registers, its stack
pointer and its stack are as they were when the switch last took it off, whatever the other tasks
have done since. Main statement: `resumes_as_left`.
-/

namespace RoundRobin

/-- What a task can see of its own state. The stack begins at the stack pointer and ends at the top
of the task's region. -/
structure View where
  registers : Registers
  psp : Word
  stack : List Word
  deriving DecidableEq

/-- What a task sees that has never run. -/
def View.fresh (app : Application) (j : Slot) : View where
  registers := ⟨.replicate 13 .zero, .number threadReturn, .entry (app.bound j),
    .number thumbStatus⟩
  psp := .address (Arena.top j)
  stack := []

namespace Machine

variable {m m' : Machine} {p q s : Int} {L : Slot → View}

/-- What the current task sees. -/
def view (m : Machine) : View where
  registers := m.cpu.registers
  psp := m.cpu.psp
  stack :=
    match m.cpu.psp with
    | .address p => m.loadAll p (Arena.top m.resident - p).toNat
    | _ => []

/-- What the task of a slot saw if the deed takes it off the processor. -/
def off (j : Slot) (m : Machine) (d : Deed) : Option View :=
  if m.takes d ∧ m.resident = j then some m.view else none

/-- What the task of a slot saw when it was last taken off the processor. -/
def left (j : Slot) (m : Machine) : List Deed → Option View
  | [] => none
  | d :: ds => (left j (m.act d) ds).or (off j m d)

/-- The task of a slot is off the processor, and its saved pointer leads to the view. -/
def Rests (m : Machine) (j : Slot) (v : View) : Prop :=
  ∃ q, (m.kernel.record j).stackPointer = .address q ∧
    Arena.base j ≤ q ∧ q + 16 ≤ Arena.top j ∧
    m.loadAll q 16 = v.registers.frame ∧ v.psp = .address (q + 16) ∧
    v.stack = m.loadAll (q + 16) (Arena.top j - (q + 16)).toNat

/-- A machine that runs tasks: every task off the processor rests with its view in `L`. -/
structure Hosts (m : Machine) (s : Int) (L : Slot → View) : Prop where
  current : m.kernel.current.toNat < 5
  populated : m.kernel.populated = true
  handlers : m.cpu.msp = .address s
  within : m.Within 0
  resting : ∀ j, j ≠ m.resident → m.Rests j (L j)

/-- The handlers' stack pointer lies outside the task stacks, with two words below it. -/
def Apart (s : Int) : Prop := s ≤ 0 ∨ 1282 ≤ s

/-! ## One deed -/

/-- A task goes on resting as long as its pointer and its region are left alone. -/
theorem Rests.congr {j : Slot} {v : View} (h : m.Rests j v)
    (hp : (m'.kernel.record j).stackPointer = (m.kernel.record j).stackPointer)
    (hl : ∀ a, Arena.base j ≤ a → a < Arena.top j → m'.load a = m.load a) : m'.Rests j v := by
  obtain ⟨q, hq, hb, ht, hf, hv, hs⟩ := h
  refine ⟨q, hp.trans hq, hb, ht, ?_, hv, ?_⟩
  · rw [← hf]
    exact loadAll_congr fun a _ _ => hl a (by omega) (by omega)
  · rw [hs]
    exact (loadAll_congr fun a _ _ => hl a (by omega) (by omega)).symm

theorem Hosts.steady (h : m.Hosts s L) (hs : m.Steady m') (hw : m'.Within 0) : m'.Hosts s L := by
  have hr := resident_eq_of_current hs.current
  refine ⟨hs.current ▸ h.current, hs.populated.trans h.populated, hs.msp.trans h.handlers, hw, ?_⟩
  intro j hj
  rw [hr] at hj
  refine (h.resting j hj).congr (hs.pointers j) fun a hb ht => hs.elsewhere a ?_
  have := Arena.base_apart hj
  omega

theorem Switched.pointer (h : m.Switched m' p q s) (j : Slot) :
    (m'.kernel.record j).stackPointer =
      if m.resident = j then .address (p - 16) else (m.kernel.record j).stackPointer := by
  rw [Kernel.record, h.scheduler, Scheduler.record_swapped]
  exact apply_ite Record.stackPointer _ _ _

theorem Rests.taken_off (h : m.Switched m' p q s) (hd : Apart s) (hp : m.cpu.psp = .address p)
    (hb : Arena.base m.resident + 16 ≤ p) (ht : p ≤ Arena.top m.resident) :
    m'.Rests m.resident m.view := by
  refine ⟨p - 16, ?_, by omega, by omega, h.saved, ?_, ?_⟩
  · rw [h.pointer, if_pos rfl]
  · rw [view, hp, Int.sub_add_cancel]
  · have hbase := Arena.base_le m.resident
    rw [view, Int.sub_add_cancel]
    simp only [hp]
    refine (loadAll_congr fun a _ _ => h.elsewhere a (by omega) ?_).symm
    rw [Apart] at hd
    rw [Arena.top] at *
    omega

theorem Rests.kept_off {j : Slot} {v : View} (h : m.Switched m' p q s) (hd : Apart s)
    (hj : j ≠ m.resident) (hb : Arena.base m.resident + 16 ≤ p) (ht : p ≤ Arena.top m.resident)
    (hr : m.Rests j v) : m'.Rests j v := by
  refine hr.congr ?_ fun a hba hta => h.elsewhere a ?_ ?_
  · rw [h.pointer, if_neg (Ne.symm hj)]
  · have := Arena.base_apart hj
    omega
  · have := Arena.base_le j
    rw [Apart] at hd
    rw [Arena.top] at hta
    omega

/-- The switch brings a task back with the view with which it rests. -/
theorem view_of_rests {v : View} (h : m.Switched m' p q s) (hr : m'.Rests m'.resident v) :
    m'.view = v ∧ m'.Within 0 := by
  obtain ⟨w, hw, hb, ht, hf, hv, hs⟩ := hr
  have hq : w = q := Word.address.inj (hw.symm.trans h.incoming)
  subst hq
  refine ⟨?_, w + 16, h.psp, by omega, ht⟩
  have hg : m'.cpu.registers = v.registers := Registers.frame_inj.mp (h.restored.trans hf)
  have hm : m'.view = ⟨m'.cpu.registers, .address (w + 16),
      m'.loadAll (w + 16) (Arena.top m'.resident - (w + 16)).toNat⟩ := by
    simp only [view, h.psp]
  rw [hm, hg, ← hv, ← hs]

/-! ## The launch -/

theorem frame_fresh (app : Application) (j : Slot) :
    (View.fresh app j).registers.frame = (Context.fresh (app.bound j)).words.toList := rfl

theorem rests_launched (m : Machine) (app : Application) (j : Slot) :
    (m.launched app).Rests j (.fresh app j) := by
  refine ⟨Arena.base j + 240, ?_, by omega, ?_, ?_, ?_, ?_⟩
  · rw [← firstPointer_eq]
    exact congrArg Record.stackPointer (Kernel.record_filled m.kernel app j)
  · rw [Arena.top]
    omega
  · rw [frame_fresh]
    exact loadAll_prepared (Arena.region_prepared _ app j)
  · rw [View.fresh, Arena.top, show Arena.base j + 256 = Arena.base j + 240 + 16 by omega]
  · rw [View.fresh, Arena.top,
      show (Arena.base j + 256 - (Arena.base j + 240 + 16)).toNat = 0 by omega]
    rfl

theorem hosts_launched (hs : m.cpu.msp = .address s) (app : Application) :
    (m.launched app).Hosts s (.fresh app) := by
  have hr : (m.launched app).resident = firstSlot := rfl
  have hw : (m.launched app).Within 0 := by
    refine ⟨Arena.top firstSlot, rfl, ?_, Int.le_of_eq (by rw [hr])⟩
    rw [hr, Arena.top]
    omega
  exact ⟨Scheduler.current_fresh app, rfl, hs, hw, fun j _ => rests_launched m app j⟩

theorem hosts_of_start {app : Application} (hs : m.cpu.msp = .address s)
    (h : start app m = .ok true m') : m'.Hosts s (.fresh app) := by
  obtain ⟨-, rfl⟩ := launched_of_start h
  exact hosts_launched hs app

/-! ## Runs -/

theorem eq_switch_of_takes {d : Deed} (h : m.takes d = true) : d = .event .switch := by
  cases d with
  | event e =>
    cases e with
    | switch => rfl
    | _ => cases h
  | work g p r => cases h

/-- A switch that is due goes through, provided that a pointer waits in the table for any other task
that it brings back. -/
theorem switched_of_takes (hc : m.kernel.current.toNat < 5) (hs : m.cpu.msp = .address s)
    (hd : Apart s) (ht : m.takes (.event .switch) = true)
    (hq : m.kernel.scheduler.next ≠ m.resident →
      ∃ q, (m.kernel.record m.kernel.scheduler.next).stackPointer = .address q) :
    ∃ m' p q, m.cpu.psp = .address p ∧ 16 ≤ p ∧ p ≤ 1280 ∧
      step .switch m = .ok (.registers m'.cpu.registers) m' ∧ m.Switched m' p q s := by
  obtain ⟨⟨p, hroom⟩, hstep⟩ := switch_of_takes ht
  obtain ⟨hp, hlow, hhigh⟩ := stackRoom_eq_some hroom
  have hlow : 16 ≤ p := hlow
  have hclear : p ≤ s - 2 ∨ s ≤ p - 16 := by
    rw [Apart] at hd
    omega
  -- The incoming pointer is an address: the one just saved, or the one that waits in the table.
  obtain ⟨q, hq⟩ : ∃ q, ((m.kernel.scheduler.swapped (.address (p - 16))).record
      m.kernel.scheduler.next).stackPointer = .address q := by
    rw [Scheduler.record_swapped]
    split
    · exact ⟨p - 16, rfl⟩
    · next hn => exact hq (Ne.symm hn)
  refine ⟨m.taken p q s, p, q, hp, hlow, by omega, ?_, switched_taken hs hclear hq⟩
  rw [hstep, Action.bind_of_ok (takeSwitch_eq hc hp hs hq)]
  rfl

/-- A switch that is due, with room for the context, goes through. -/
theorem Hosts.switched (h : m.Hosts s L) (hd : Apart s) (ht : m.takes (.event .switch) = true)
    (hw : m.Within contextWords) :
    ∃ m' p q, m.cpu.psp = .address p ∧ Arena.base m.resident + 16 ≤ p ∧
      p ≤ Arena.top m.resident ∧ step .switch m = .ok (.registers m'.cpu.registers) m' ∧
      m.Switched m' p q s := by
  obtain ⟨m', p, q, hp, -, -, hstep, hsw⟩ :=
    switched_of_takes h.current h.handlers hd ht fun hn =>
      let ⟨q, hq, _⟩ := h.resting _ hn
      ⟨q, hq⟩
  obtain ⟨b, hb, hroom, htop⟩ := hw
  obtain rfl : p = b := Word.address.inj (hp.symm.trans hb)
  exact ⟨m', p, q, hp, hroom, htop, hstep, hsw⟩

/-- A taken switch lets the outgoing task rest with what it saw, and brings another task back. -/
theorem Hosts.switch (h : m.Hosts s L) (hd : Apart s) (ht : m.takes (.event .switch) = true)
    (hw : m.Within contextWords) :
    ∃ m', step .switch m = .ok (.registers m'.cpu.registers) m' ∧
      m'.Hosts s (fun j => (off j m (.event .switch)).getD (L j)) ∧
      m'.view = (off m'.resident m (.event .switch)).getD (L m'.resident) := by
  obtain ⟨m', p, q, hp, hroom, htop, hstep, hsw⟩ := h.switched hd ht hw
  have hrest (j : Slot) : m'.Rests j ((off j m (.event .switch)).getD (L j)) := by
    by_cases hj : j = m.resident
    · subst hj
      rw [off, if_pos ⟨ht, rfl⟩]
      exact .taken_off hsw hd hp hroom htop
    · rw [off, if_neg fun hc => hj hc.2.symm]
      exact .kept_off hsw hd hj hroom htop (h.resting j hj)
  obtain ⟨hview, hwithin⟩ := view_of_rests hsw (hrest m'.resident)
  have hcurrent : m'.kernel.current.toNat < 5 := by
    rw [Kernel.current, hsw.scheduler, Scheduler.toNat_current_swapped]
    exact m.kernel.scheduler.next.isLt
  exact ⟨m', hstep,
    ⟨hcurrent, hsw.populated.trans h.populated, hsw.msp, hwithin, fun j _ => hrest j⟩, hview⟩

theorem Hosts.act (h : m.Hosts s L) (hd : Apart s) {d : Deed} (hk : m.Keeps d) :
    (m.act d).Hosts s (fun j => (off j m d).getD (L j)) := by
  cases ht : m.takes d with
  | true =>
    obtain rfl := eq_switch_of_takes ht
    obtain ⟨m', hs, hm, -⟩ := h.switch hd ht (within_of_keeps ht hk)
    rw [act_of_ok hs]
    exact hm
  | false =>
    have ho : (fun j => (off j m d).getD (L j)) = L := by
      funext j
      rw [off, ht, if_neg fun hc => Bool.false_ne_true hc.1]
      rfl
    rw [ho]
    exact h.steady (steady_act h.current h.populated h.within ht hk)
      (within_act h.current h.populated h.within ht hk)

theorem Hosts.acts (h : m.Hosts s L) (hd : Apart s) {ds : List Deed} (ho : m.Orderly ds) :
    (m.acts ds).Hosts s (fun j => (left j m ds).getD (L j)) := by
  induction ds generalizing m L with
  | nil => exact h
  | cons d ds ih =>
    have hn := ih (h.act hd ho.1) ho.2
    have hl (j : Slot) : (left j (m.act d) ds).getD ((off j m d).getD (L j)) =
        (left j m (d :: ds)).getD (L j) := by
      rw [left]
      cases left j (m.act d) ds <;> rfl
    simp only [hl] at hn
    exact hn

/-- Whether the task of a slot is on the processor at some time before the last deed. -/
def Visited (j : Slot) (m : Machine) (ds : List Deed) : Prop :=
  ∃ es, es <+: ds ∧ (m.acts es).resident = j

theorem left_append (j : Slot) (m : Machine) (ds es : List Deed) :
    left j m (ds ++ es) = (left j (m.acts ds) es).or (left j m ds) := by
  induction ds generalizing m with
  | nil => rw [List.nil_append, left, Option.or_none]; rfl
  | cons d ds ih =>
    rw [List.cons_append, left, left, ih, Option.or_assoc]
    rfl

/-- The task on the processor stays there until it is taken off. -/
theorem Hosts.resident_act (h : m.Hosts s L) {d : Deed} (hk : m.Keeps d)
    (ht : m.takes d = false) : (m.act d).resident = m.resident :=
  resident_eq_of_current (steady_act h.current h.populated h.within ht hk).current

theorem visited_nil (j : Slot) (m : Machine) : Visited j m [] ↔ m.resident = j := by
  constructor
  · rintro ⟨es, he, hr⟩
    cases List.prefix_nil.mp he
    exact hr
  · exact fun h => ⟨[], List.nil_prefix, h⟩

theorem visited_cons (j : Slot) (m : Machine) (d : Deed) (ds : List Deed) :
    Visited j m (d :: ds) ↔ m.resident = j ∨ Visited j (m.act d) ds := by
  constructor
  · rintro ⟨es, he, hr⟩
    cases es with
    | nil => exact .inl hr
    | cons e es =>
      obtain ⟨rfl, hp⟩ := List.cons_prefix_cons.mp he
      exact .inr ⟨es, hp, hr⟩
  · rintro (h | ⟨es, he, hr⟩)
    · exact ⟨[], List.nil_prefix, h⟩
    · exact ⟨d :: es, List.cons_prefix_cons.mpr ⟨rfl, he⟩, hr⟩

/-- A task that has run is on the processor or has been taken off it. -/
theorem Hosts.visited_iff (h : m.Hosts s L) (hd : Apart s) {ds : List Deed} (ho : m.Orderly ds)
    (j : Slot) : Visited j m ds ↔ (m.acts ds).resident = j ∨ (left j m ds).isSome = true := by
  induction ds generalizing m L with
  | nil =>
    rw [visited_nil, left, Option.isSome_none]
    exact ⟨.inl, fun h => h.resolve_right nofun⟩
  | cons d ds ih =>
    have hn := ih (h.act hd ho.1) ho.2
    rw [visited_cons, left, Option.isSome_or, Bool.or_eq_true, ← or_assoc]
    rw [show m.acts (d :: ds) = (m.act d).acts ds from rfl, ← hn]
    constructor
    · rintro (hr | hv)
      · cases ht : m.takes d with
        | true => exact .inr (by simp [off, ht, hr])
        | false => exact .inl ⟨[], List.nil_prefix, (h.resident_act ho.1 ht).trans hr⟩
      · exact .inl hv
    · rintro (hv | hs)
      · exact .inr hv
      · rw [off] at hs
        split at hs
        · next hc => exact .inl hc.2
        · cases hs

/-- **Tasks do not notice each other.** The scheduler is started on any machine whose handlers have
their stack outside the task stacks, and the run goes on in any way in which every running task
keeps to its own region. A switch that is taken then goes through, and the task that it brings back
sees exactly what it saw when it was last taken off the processor, this switch included; a task that
has never run sees its entry point and nothing else. -/
theorem resumes_as_left (app : Application) (m m₀ : Machine) (s : Int) (ds : List Deed)
    (hs : m.cpu.msp = .address s) (hd : Apart s) (hstart : start app m = .ok true m₀)
    (ho : m₀.Orderly (ds ++ [.event .switch]))
    (ht : (m₀.acts ds).takes (.event .switch) = true) :
    ∃ m', step .switch (m₀.acts ds) = .ok (.registers m'.cpu.registers) m' ∧
      (Visited m'.resident m₀ ds →
        left m'.resident m₀ (ds ++ [.event .switch]) = some m'.view) ∧
      (¬ Visited m'.resident m₀ ds → m'.view = .fresh app m'.resident) := by
  have h₀ : m₀.Hosts s (.fresh app) := by
    cases hp : m.kernel.populated with
    | true =>
      rw [start_of_true hp] at hstart
      cases hstart
    | false =>
      rw [start_eq hp] at hstart
      cases hstart
      exact hosts_launched hs app
  obtain ⟨ho, hk, -⟩ := orderly_append.mp ho
  obtain ⟨m', hstep, -, hview⟩ := (h₀.acts hd ho).switch hd ht (within_of_keeps ht hk)
  have hvisit := h₀.visited_iff hd ho m'.resident
  have hleft : left m'.resident m₀ (ds ++ [.event .switch]) =
      (off m'.resident (m₀.acts ds) (.event .switch)).or (left m'.resident m₀ ds) := by
    rw [left_append, left, left, Option.none_or]
  refine ⟨m', hstep, ?_, ?_⟩
  · intro hv
    rw [hleft, hview]
    by_cases hr : (m₀.acts ds).resident = m'.resident
    · rw [off, if_pos ⟨ht, hr⟩]
      rfl
    · obtain ⟨v, hl⟩ := Option.isSome_iff_exists.mp ((hvisit.mp hv).resolve_left hr)
      rw [off, if_neg fun hc => hr hc.2, hl]
      rfl
  · intro hv
    obtain ⟨hr, hl⟩ := not_or.mp (mt hvisit.mpr hv)
    rw [hview, off, if_neg fun hc => hr hc.2, Option.not_isSome_iff_eq_none.mp hl]
    rfl

/-- The first task leaves its mark and sleeps for a tick; the others are served in turn, and the
last of them gives way to the first again. -/
def errand : List Deed :=
  [.work ⟨.replicate 13 (.number 7), .number 8, .number 9, .number 10⟩ 500 (.filled (.number 11)),
    .event (.delay 1), .event .switch,
    .event (.push [.number 1, .number 2]), .event (.delay 9), .event .switch,
    .work .zeroed 1024 .zeroed, .event .clock, .event (.delay 9), .event .switch,
    .event (.delay 9)]

theorem resumes_as_left_errand :
    let m₀ := blank.launched .numbered
    start .numbered blank = .ok true m₀ ∧ m₀.Orderly (errand ++ [.event .switch]) ∧
    (m₀.acts errand).takes (.event .switch) = true ∧
    ∃ m', step .switch (m₀.acts errand) = .ok (.registers m'.cpu.registers) m' ∧
      m'.resident = firstSlot ∧
      left firstSlot m₀ (errand ++ [.event .switch]) = some m'.view := by
  have hstart : start .numbered blank = .ok true (blank.launched .numbered) := start_eq rfl _
  have ho : (blank.launched .numbered).Orderly (errand ++ [.event .switch]) := by decide +kernel
  have ht : ((blank.launched .numbered).acts errand).takes (.event .switch) = true := by
    decide +kernel
  obtain ⟨m', hm, hv, -⟩ :=
    resumes_as_left .numbered blank _ handlerTop errand rfl (.inr (by decide)) hstart ho ht
  have hr : m'.resident = firstSlot := by
    rw [← act_of_ok hm]
    decide +kernel
  rw [hr] at hv
  exact ⟨hstart, ho, ht, m', hm, hr, hv ⟨[], List.nil_prefix, rfl⟩⟩

end Machine
end RoundRobin
