import RoundRobin.Proofs.Memory.Arena
import RoundRobin.Proofs.Scheduler.Effect

/-!
Filling the task table always goes through, and what it makes depends on the application and, below
the first contexts, on what the stacks held before. Main statement: `populate_eq`.
-/

namespace RoundRobin

/-- The entry point that an application binds to a slot. -/
def Application.bound (app : Application) (j : Slot) : Entry :=
  if h : j.val = 0 then app.idle else app.tasks[j.val - 1]

theorem Application.entry_eq (app : Application) (j : Slot) :
    app.entry j.val.toUInt64 = .ok (app.bound j) := by
  rcases j with ⟨_ | i, h⟩
  · rfl
  · exact entry_succ app (Nat.lt_of_succ_lt_succ h)

/-- The application whose routines carry the numbers of their slots. -/
def Application.numbered : Application :=
  ⟨.routine 0, #v[.routine 1, .routine 2, .routine 3, .routine 4]⟩

/-- The stack pointer with which the task of a slot starts: its first context fills the top of its
region. -/
def firstPointer (j : Slot) : Word := .address (Arena.top j - contextWords)

theorem firstPointer_eq (j : Slot) : firstPointer j = .address (Arena.base j + 240) := by
  rw [firstPointer, Arena.top_sub_contextWords]

theorem firstPointer_inj {i j : Slot} : firstPointer i = firstPointer j ↔ i = j := by
  refine ⟨fun h => ?_, fun h => h ▸ rfl⟩
  rw [firstPointer_eq, firstPointer_eq, Word.address.injEq, Arena.base, Arena.base] at h
  exact Fin.ext (by omega)

namespace Arena

/-- The stacks once every slot's first context is laid. -/
def prepared (a : Arena) (app : Application) : Arena :=
  ⟨.ofFn fun j => ((a.region j).prepare (app.bound j)).1⟩

theorem region_prepared (a : Arena) (app : Application) (j : Slot) :
    (a.prepared app).region j = ((a.region j).prepare (app.bound j)).1 := by
  simp [region, prepared]

theorem prepare_eq (a : Arena) (j : Slot) (e : Entry) :
    a.prepare j e = (a.setRegion j ((a.region j).prepare e).1, firstPointer j) := by
  have h : a.prepare j e = (a.setRegion j ((a.region j).prepare e).1,
      .address (base j + ((a.region j).prepare e).2)) := rfl
  rw [h, Region.prepare_snd, firstPointer_eq]
  rfl

end Arena

namespace Scheduler

/-- The scheduler of an application whose first task is about to be launched. -/
def fresh (app : Application) : Scheduler :=
  ⟨.ofFn fun j => .fresh (app.bound j) (firstPointer j), firstSlot.val.toUInt64, 0⟩

@[simp] theorem record_fresh (app : Application) (j : Slot) :
    (fresh app).record j = .fresh (app.bound j) (firstPointer j) := by
  simp [record_eq, fresh]

theorem current_fresh (app : Application) : (fresh app).current.toNat < 5 := by
  rw [show (fresh app).current.toNat = 1 from rfl]
  decide

/-- A slot is either among those that are still to be bound, or left as it was. -/
theorem bindSlots_cases (app : Application) (slots : List Slot) (hs : slots.Nodup)
    (tasks : Vector Record 5) (a : Arena) :
    ∃ tasks' a', bindSlots app slots (tasks, a) = .ok (tasks', a') ∧ ∀ j : Slot,
      (j ∈ slots → tasks'.get j = .fresh (app.bound j) (firstPointer j) ∧
        a'.region j = ((a.region j).prepare (app.bound j)).1) ∧
      (j ∉ slots → tasks'.get j = tasks.get j ∧ a'.region j = a.region j) := by
  induction slots generalizing tasks a with
  | nil => exact ⟨tasks, a, rfl, fun j => ⟨fun h => absurd h List.not_mem_nil, fun _ => ⟨rfl, rfl⟩⟩⟩
  | cons i slots ih =>
    obtain ⟨hi, hs⟩ := List.nodup_cons.mp hs
    obtain ⟨tasks', a', he, hj⟩ := ih hs (tasks.set i (.fresh (app.bound i) (firstPointer i)))
      (a.setRegion i ((a.region i).prepare (app.bound i)).1)
    refine ⟨tasks', a', ?_, ?_⟩
    · rw [bindSlots, Application.entry_eq, ← he]
      simp only [bind, Except.bind, Arena.prepare_eq]
    · intro j
      obtain ⟨hin, hout⟩ := hj j
      rw [get_set, Arena.region_setRegion] at hout
      by_cases h : i = j
      · subst h
        rw [if_pos rfl, if_pos rfl] at hout
        exact ⟨fun _ => hout hi, fun hn => absurd List.mem_cons_self hn⟩
      · rw [if_neg h, if_neg h] at hout
        rw [Arena.region_setRegion, if_neg h] at hin
        refine ⟨fun hm => hin ?_, fun hn => hout fun hm => hn (List.mem_cons_of_mem i hm)⟩
        exact (List.mem_cons.mp hm).resolve_left (Ne.symm h)

theorem populate_eq (s : Scheduler) (a : Arena) (app : Application) :
    s.populate a app = .ok (fresh app, a.prepared app) := by
  obtain ⟨tasks, a', he, hj⟩ :=
    bindSlots_cases app (List.finRange 5) (by decide) s.tasks a
  have ht : tasks = (fresh app).tasks := by
    apply Vector.ext
    intro j h
    have hr := ((hj ⟨j, h⟩).1 (List.mem_finRange _)).1
    exact hr.trans (record_fresh app ⟨j, h⟩).symm
  have ha : a' = a.prepared app := by
    rcases a' with ⟨regions⟩
    rw [Arena.prepared, Arena.mk.injEq]
    apply Vector.ext
    intro j h
    have hr := ((hj ⟨j, h⟩).1 (List.mem_finRange _)).2
    exact hr.trans (Arena.region_prepared a app ⟨j, h⟩).symm
  rw [populate, he, ht, ha]
  rfl

end Scheduler
end RoundRobin
