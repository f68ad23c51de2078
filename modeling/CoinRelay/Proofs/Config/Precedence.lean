import CoinRelay.Config

/-! # Precedence

A configuration keeps what its steps said last. Each of its parts is searched from the latest step
back: the command of a hop, the timeout, the entry point and the config path. What a step says about
one hop is nothing to another. -/

namespace CoinRelay.Config
variable {α : Type} {steps : List Step}

/-! ## What a step says -/

namespace Step

/-- The command that a step sets for a hop. What is blank sets none, unless it is given for this hop
alone. -/
def command? (hop : Hop) : Step → Option String
  | .command h raw => if h = hop then some raw else none
  | .file _ settings => (settings.commands hop).filter (!isBlankCommand ·)
  | .environment lookup =>
    (lookup hop.environmentVariable).filter (!isBlankCommand ·)
  | .entryPoint _ | .timeout _ => none

/-- The time that a step allows. -/
def limit? : Step → Option Duration
  | .timeout limit => some limit
  | .file _ settings => settings.timeoutSecs.map fun n => .ofSecs n.toNat
  | .entryPoint _ | .command .. | .environment _ => none

def program? : Step → Option String
  | .entryPoint program => some program
  | _ => none

def path? : Step → Option String
  | .file path _ => some path
  | _ => none

/-- What is left of a step when it says nothing about the other hops: their commands are not given,
and their variables are not set. -/
def about (hop : Hop) : Step → Option Step
  | .command h raw => if h = hop then some (.command h raw) else none
  | .file path settings => some (.file path
    { settings with commands := fun h => if h = hop then settings.commands h else none })
  | .environment lookup => some (.environment fun name =>
    if Hop.all.any fun h => h ≠ hop ∧ h.environmentVariable = name then none else lookup name)
  | .entryPoint program => some (.entryPoint program)
  | .timeout limit => some (.timeout limit)

end Step

/-! ## What is said last -/

/-- What the latest step says that says anything. -/
def latest (tells : Step → Option α) (steps : List Step) : Option α := steps.reverse.findSome? tells

theorem latest_cons (tells : Step → Option α) (step : Step) (steps : List Step) :
    latest tells (step :: steps) = (latest tells steps).or (tells step) := by
  simp [latest, List.findSome?_append]

/-- The latest step that says anything is followed by steps that say nothing. -/
theorem latest_eq_some_iff {tells : Step → Option α} {a : α} : latest tells steps = some a ↔
    ∃ before step after, steps = before ++ step :: after ∧ tells step = some a ∧
      ∀ later ∈ after, tells later = none := by
  rw [latest, List.findSome?_eq_some_iff]
  constructor
  · rintro ⟨after, step, before, hsteps, hsays, hlater⟩
    rw [List.reverse_eq_iff] at hsteps
    refine ⟨before.reverse, step, after.reverse, by simpa using hsteps, hsays, ?_⟩
    exact fun later hmem => hlater later (List.mem_reverse.1 hmem)
  · rintro ⟨before, step, after, rfl, hsays, hlater⟩
    refine ⟨after.reverse, step, before.reverse, by simp, hsays, ?_⟩
    exact fun later hmem => hlater later (List.mem_reverse.1 hmem)

/-- If each step puts what it says in the place of a part, this part is what was said last. -/
theorem part_applyAll (part : Config → Option α) (tells : Step → Option α)
    (hstep : ∀ config step, part (config.apply step) = (tells step).or (part config))
    (config : Config) (steps : List Step) :
    part (config.applyAll steps) = (latest tells steps).or (part config) := by
  induction steps generalizing config with
  | nil => rfl
  | cons step rest ih =>
    have hrest := ih (config.apply step)
    rw [hstep, ← Option.or_assoc, ← latest_cons] at hrest
    exact hrest

/-! ## One step -/

theorem override_eq (earlier given : Option String) :
    override earlier given = (given.filter (!isBlankCommand ·)).or earlier := by
  cases given with
  | none => rfl
  | some raw => cases h : isBlankCommand raw <;> simp [override, Option.filter, h]

theorem commands_apply (config : Config) (step : Step) (hop : Hop) :
    (config.apply step).commands hop = (step.command? hop).or (config.commands hop) := by
  cases step with
  | command h raw =>
    by_cases heq : h = hop
    · simp [apply, Step.command?, heq]
    · simp [apply, Step.command?, heq, Ne.symm heq]
  | file path settings => exact override_eq ..
  | environment lookup => exact override_eq ..
  | entryPoint | timeout => rfl

theorem timeout_apply (config : Config) (step : Step) :
    some (config.apply step).timeout = (step.limit?).or (some config.timeout) := by
  cases step with
  | file path settings => cases h : settings.timeoutSecs <;> simp [apply, Step.limit?, h]
  | _ => rfl

theorem entryPoint_apply (config : Config) (step : Step) :
    (config.apply step).entryPoint = (step.program?).or config.entryPoint := by
  cases step <;> rfl

theorem filePath_apply (config : Config) (step : Step) :
    (config.apply step).filePath = (step.path?).or config.filePath := by
  cases step <;> rfl

/-! ## What is said about a hop -/

/-- The variable of a hop is its own. -/
theorem environmentVariable_injective {h hop : Hop}
    (heq : h.environmentVariable = hop.environmentVariable) : h = hop := by
  have hread : ∀ hop : Hop, (Hop.all.find? (·.environmentVariable = hop.environmentVariable)) =
      some hop := by
    intro hop
    cases hop <;> decide
  have hfound := hread h
  rw [heq, hread hop] at hfound
  exact (Option.some.inj hfound).symm

theorem command?_about (hop : Hop) (step : Step) :
    (step.about hop).bind (Step.command? hop) = step.command? hop := by
  cases step with
  | command h raw => by_cases heq : h = hop <;> simp [Step.about, Step.command?, heq]
  | file path settings => simp [Step.about, Step.command?]
  | environment lookup =>
    have hown : ¬ (Hop.all.any fun h =>
        h ≠ hop ∧ h.environmentVariable = hop.environmentVariable) = true := by
      simp only [List.any_eq_true, decide_eq_true_eq, not_exists, not_and]
      exact fun h _ hne heq => hne (environmentVariable_injective heq)
    simp only [Step.about, Step.command?, Option.bind_some, if_neg hown]
  | entryPoint | timeout => rfl

theorem program?_about (hop : Hop) (step : Step) :
    (step.about hop).bind Step.program? = step.program? := by
  cases step with
  | command h raw => by_cases heq : h = hop <;> simp [Step.about, Step.program?, heq]
  | _ => rfl

theorem path?_about (hop : Hop) (step : Step) :
    (step.about hop).bind Step.path? = step.path? := by
  cases step with
  | command h raw => by_cases heq : h = hop <;> simp [Step.about, Step.path?, heq]
  | _ => rfl

theorem latest_filterMap {tells : Step → Option α} {change : Step → Option Step}
    (h : ∀ step, (change step).bind tells = tells step) (steps : List Step) :
    latest tells (steps.filterMap change) = latest tells steps := by
  induction steps with
  | nil => rfl
  | cons step rest ih =>
    rw [latest_cons, ← h step, ← ih, List.filterMap_cons]
    cases change step with
    | none => simp
    | some kept => exact latest_cons ..

/-! ## Configurations -/

/-- What the text of a command is read as. -/
def readCommand (raw : String) : Except DelegationError (Option CommandLine) :=
  match CommandLine.parse? raw with
  | some command => .ok (some command)
  | none => .error (.invalidCommand raw)

/-- The hop's own stage, through the latest entry point and under the latest config path. -/
def latestBuiltin? (steps : List Step) (hop : Hop) : Option CommandLine := do
  let stage ← hop.builtin?
  let program ← latest Step.program? steps
  let pathArguments := (latest Step.path? steps).elim [] fun path => ["--config-path", path]
  return ⟨program, pathArguments ++ [stage.subcommand]⟩

theorem builtin?_applyAll (steps : List Step) (hop : Hop) :
    (applyAll {} steps).builtin? hop = latestBuiltin? steps hop := by
  have hprogram := part_applyAll _ _ entryPoint_apply {} steps
  have hpath := part_applyAll _ _ filePath_apply {} steps
  rw [Option.or_none] at hprogram hpath
  simp only [builtin?, stageArguments, latestBuiltin?, hprogram, hpath]
  cases latest Step.path? steps <;> rfl

theorem resolve_applyAll (steps : List Step) (hop : Hop) :
    (applyAll {} steps).resolve hop =
      match latest (Step.command? hop) steps with
      | some raw => readCommand raw
      | none => .ok (latestBuiltin? steps hop) := by
  have hcommand := part_applyAll (·.commands hop) (Step.command? hop) (commands_apply · · hop) {}
    steps
  rw [Option.or_none] at hcommand
  rw [resolve, hcommand, builtin?_applyAll]
  cases latest (Step.command? hop) steps <;> rfl

theorem timeout_applyAll (steps : List Step) :
    (applyAll {} steps).timeout = (latest Step.limit? steps).getD (.ofSecs 120) := by
  have htimeout := part_applyAll (fun config => some config.timeout) _ timeout_apply {} steps
  rw [Option.or_some] at htimeout
  exact Option.some.inj htimeout

/-- **Later steps win, each hop for itself.** A hop is answered by the command that the latest step
sets that sets any for it; without one by its own stage, through the latest entry point and under
the latest config path; and the time is that of the latest step that gives one. What the steps say
about other hops is of no consequence. -/
theorem resolve_of_steps (steps : List Step) (hop : Hop) :
    let config := applyAll {} steps
    (∀ {α : Type} (tells : Step → Option α) (a : α), latest tells steps = some a ↔
      ∃ before step after, steps = before ++ step :: after ∧ tells step = some a ∧
        ∀ later ∈ after, tells later = none) ∧
    config.resolve hop =
      (match latest (Step.command? hop) steps with
      | some raw => readCommand raw
      | none => .ok (latestBuiltin? steps hop)) ∧
    config.timeout = (latest Step.limit? steps).getD (.ofSecs 120) ∧
    config.resolve hop = (applyAll {} (steps.filterMap (Step.about hop))).resolve hop := by
  intro config
  refine ⟨fun tells a => latest_eq_some_iff, resolve_applyAll steps hop, timeout_applyAll steps, ?_⟩
  rw [resolve_applyAll, resolve_applyAll, latestBuiltin?, latestBuiltin?,
    latest_filterMap (command?_about hop), latest_filterMap (program?_about hop),
    latest_filterMap (path?_about hop)]

/-- A blank variable leaves the command of the file as it is. -/
example : (applyAll {} [.file "coin-ops.yaml" { commands := fun _ => some "far-signer" },
    .environment fun _ => some "  "]).resolve .signSubmit = .ok (some ⟨"far-signer", []⟩) := by
  rfl

end CoinRelay.Config
