/-!
What the build step tells the linker. The memory map is placed in the output directory and that
directory is put on the search path. Linker scripts are asked for only when the target is a
microcontroller; an image for the development machine needs none, and only says when it is run that
it is firmware. How the system copies a file is a parameter. Main statements: `plan_eq_ok_iff`,
`plan_eq_error_iff` and `script_mem_directives_iff`.
-/

namespace RoundRobin
namespace Linking

/-- What the build step finds: three settings of the build, each possibly unset, and a system that
copies a file and answers with the text of the copy or with its reason to refuse. Logging is on if
its setting has any value. -/
structure Environment where
  target : Option String
  logging : Option String
  outDir : Option String
  copy : (source destination : String) → Except String String

inductive Failure where
  | noOutDir
  | notCopied (reason : String)
  deriving DecidableEq, Repr

/-- How a step that takes success for granted reports an error. -/
def unwrapMessage (error : String) : String :=
  "called `Result::unwrap()` on an `Err` value: " ++ error

def Failure.message : Failure → String
  | noOutDir => unwrapMessage "NotPresent"
  | notCopied reason => unwrapMessage reason

/-- What the build step asks for: a directory in which the linker searches, a linker script, or a
file whose change makes the step run again. -/
inductive Directive where
  | search (dir : String)
  | script (name : String)
  | watch (file : String)
  deriving DecidableEq, Repr

def Directive.line : Directive → String
  | search dir => "cargo:rustc-link-search=" ++ dir
  | script name => "cargo:rustc-link-arg-bins=-T" ++ name
  | watch file => "cargo:rerun-if-changed=" ++ file

/-- What the build step asks for, and the memory map as it is placed. -/
structure Plan where
  directives : List Directive
  memoryMap : String
  deriving DecidableEq, Repr

/-- The directives as text, each on a line of its own. -/
def Plan.text (p : Plan) : String := String.join (p.directives.map (·.line ++ "\n"))

/-- The name of the memory map. -/
def mapName : String := "memory.x"

/-- The path of a file in a directory. -/
def join (dir name : String) : String :=
  if dir.isEmpty || dir.endsWith "/" then dir ++ name else dir ++ "/" ++ name

namespace Environment

def forMicrocontroller (env : Environment) : Bool := (env.target.getD "").startsWith "thumbv"

/-- The linker scripts that the image needs. -/
def scripts (env : Environment) : List String :=
  if env.forMicrocontroller then
    "link.x" :: (if env.logging.isSome then ["defmt.x"] else [])
  else []

def directives (env : Environment) (dir : String) : List Directive :=
  [.search dir] ++ env.scripts.map .script ++ [.watch mapName, .watch "build.rs"]

def plan (env : Environment) : Except Failure Plan := do
  let some dir := env.outDir | throw .noOutDir
  let memoryMap ← (env.copy mapName (join dir mapName)).mapError .notCopied
  return { directives := env.directives dir, memoryMap }

variable {env : Environment} {dir : String}

theorem plan_of_none (h : env.outDir = none) : env.plan = .error .noOutDir := by
  simp only [plan, h]
  rfl

theorem plan_of_copied {text : String} (h : env.outDir = some dir)
    (hc : env.copy mapName (join dir mapName) = .ok text) :
    env.plan = .ok ⟨env.directives dir, text⟩ := by
  simp only [plan, h, hc]
  rfl

theorem plan_of_refused {reason : String} (h : env.outDir = some dir)
    (hc : env.copy mapName (join dir mapName) = .error reason) :
    env.plan = .error (.notCopied reason) := by
  simp only [plan, h, hc]
  rfl

/-- The step goes through once the memory map is in the output directory, and asks for what this
directory and the settings call for. -/
theorem plan_eq_ok_iff {p : Plan} :
    env.plan = .ok p ↔ ∃ dir, env.outDir = some dir ∧
      env.copy mapName (join dir mapName) = .ok p.memoryMap ∧
      p.directives = env.directives dir := by
  constructor
  · intro h
    cases hd : env.outDir with
    | none =>
      rw [plan_of_none hd] at h
      cases h
    | some dir =>
      cases hc : env.copy mapName (join dir mapName) with
      | error reason =>
        rw [plan_of_refused hd hc] at h
        cases h
      | ok text =>
        rw [plan_of_copied hd hc] at h
        cases h
        exact ⟨dir, rfl, hc, rfl⟩
  · rintro ⟨dir, hd, hc, hp⟩
    rw [plan_of_copied hd hc, ← hp]

/-- The step fails without an output directory, and where the system refuses to copy. -/
theorem plan_eq_error_iff {f : Failure} :
    env.plan = .error f ↔ env.outDir = none ∧ f = .noOutDir ∨
      ∃ dir reason, env.outDir = some dir ∧
        env.copy mapName (join dir mapName) = .error reason ∧ f = .notCopied reason := by
  cases hd : env.outDir with
  | none => simp [plan_of_none hd, eq_comm]
  | some dir =>
    cases hc : env.copy mapName (join dir mapName) with
    | error reason => simp [plan_of_refused hd hc, hc, eq_comm]
    | ok text => simp [plan_of_copied hd hc, hc]

/-- An image for the development machine gets no linker script, one for a microcontroller gets the
main script, and with logging the one for logging too. -/
theorem script_mem_directives_iff {name : String} :
    .script name ∈ env.directives dir ↔ env.forMicrocontroller = true ∧
      (name = "link.x" ∨ name = "defmt.x" ∧ env.logging.isSome = true) := by
  have hscripts : .script name ∈ env.directives dir ↔ name ∈ env.scripts := by
    simp [directives]
  rw [hscripts, scripts]
  cases env.forMicrocontroller <;> cases env.logging <;> simp

end Environment

/-! ## The development machine -/

/-- The microcontroller that the kernel is built for. -/
def boardTarget : String := "thumbv7em-none-eabihf"

/-- What an image for the development machine says. -/
def notice : String := "rrsched-demo is firmware; build it with --target " ++ boardTarget

/-- Whoever follows the notice gets an image for a microcontroller. -/
theorem forMicrocontroller_of_boardTarget {env : Environment} (h : env.target = some boardTarget) :
    env.forMicrocontroller = true := by
  rw [Environment.forMicrocontroller, h, String.startsWith_string_iff]
  decide

end Linking
end RoundRobin
