import CoinRelay.Arguments
import CoinRelay.Config

/-! # Starting the program again

A hop without a command is answered by the program itself. It is started again with the config path
as an argument of its own, and reads back the stage and the path that were meant, under which it
builds the configuration that it was started from. A path that looks like a flag is the exception:
what is read back then is never this path. -/

namespace CoinRelay

namespace Arguments

/-! ## Words and flags -/

/-- The text begins with a dash and is no single dash. -/
def LooksLikeFlag (text : String) : Prop := ∃ c cs, text.toList = '-' :: c :: cs

theorem longFlag_ne_word (name : String) (value : Option String) : longFlag name value ≠ .word := by
  unfold longFlag
  split <;> simp

theorem longFlag_eq_configPathTo {name path : String} {value : Option String}
    (h : longFlag name value = .configPathTo path) :
    name = "config-path" ∧ value = some path := by
  unfold longFlag at h
  split at h
  case h_2 => cases h; exact ⟨rfl, rfl⟩
  all_goals cases h

/-- Words are exactly the texts that do not look like a flag. -/
theorem flag_eq_word_iff {text : String} : flag text = .word ↔ ¬ LooksLikeFlag text := by
  unfold flag LooksLikeFlag
  split
  case h_2 rest _ h =>
    simp only [h, longFlag_ne_word, false_iff]
    exact fun hno => hno ⟨_, _, rfl⟩
  case h_6 hdash hlong hV hh hletter =>
    simp only [true_iff]
    rintro ⟨c, cs, h⟩
    exact hletter c cs h
  all_goals simp_all

/-- A text is what stands before the first of a character, this character, and what follows. -/
theorem eq_takeWhile_append {c : Char} {cs : List Char} (h : c ∈ cs) :
    cs = cs.takeWhile (· ≠ c) ++ c :: cs.drop ((cs.takeWhile (· ≠ c)).length + 1) := by
  induction cs with
  | nil => cases h
  | cons a cs ih =>
    by_cases ha : a = c
    · simp [ha]
    · have hmem : c ∈ cs := (List.mem_cons.1 h).resolve_left (Ne.symm ha)
      simp only [List.takeWhile_cons, ha, ne_eq, not_false_eq_true, decide_true, if_true,
        List.cons_append, List.length_cons, List.drop_succ_cons]
      exact congrArg (a :: ·) (ih hmem)

/-- A flag that carries its path is this path behind the name of the flag. -/
theorem eq_append_of_flag {text path : String} (h : flag text = .configPathTo path) :
    text = "--config-path=" ++ path := by
  unfold flag at h
  split at h
  case h_2 rest _ htext =>
    obtain ⟨hname, hvalue⟩ := longFlag_eq_configPathTo h
    split at hvalue
    · next hmem =>
      have hname : rest.takeWhile (· ≠ '=') = "config-path".toList := by
        rw [← hname, String.toList_ofList]
      have hpath : rest.drop ("config-path".toList.length + 1) = path.toList := by
        rw [← hname, ← Option.some.inj hvalue, String.toList_ofList]
      have hrest : rest = "config-path".toList ++ '=' :: path.toList := by
        rw [← hpath, ← hname]
        exact eq_takeWhile_append hmem
      rw [← String.toList_inj, htext, hrest, String.toList_append]
      rfl
    · cases hvalue
  all_goals cases h

/-! ## Reading the restart -/

theorem flag_subcommand (stage : Stage) : flag stage.subcommand = .word := by
  cases stage <;> decide

theorem ofName?_subcommand (stage : Stage) :
    Task.ofName? stage.subcommand = some (.stage stage) := by
  cases stage <;> decide

theorem subcommand_ne_help (stage : Stage) : stage.subcommand ≠ "help" := by
  cases stage <;> decide

/-- A subcommand alone asks for its stage, under the config path so far. -/
theorem beforeTask_subcommand (path : Option String) (stage : Stage) :
    beforeTask false path [stage.subcommand] = .task (.stage stage) path := by
  simp [beforeTask, flag_subcommand, subcommand_ne_help, ofName?_subcommand, behindTask]

theorem parse_configPath (rest : List String) :
    parse ("--config-path" :: rest) = beforeTask true none rest := by
  have hflag : flag "--config-path" = .configPath := by decide
  simp only [parse, beforeTask, hflag]

/-- Behind its flag a word is the config path. -/
theorem parse_restart_of_word {path : String} (hne : path ≠ "") (h : ¬ LooksLikeFlag path)
    (stage : Stage) : parse ["--config-path", path, stage.subcommand] =
      .task (.stage stage) (some path) := by
  rw [parse_configPath, beforeTask, flag_eq_word_iff.2 h]
  simp [hne, beforeTask_subcommand]

/-- Behind its flag a text that looks like a flag is read as one of its own. If a task is understood
nevertheless, it is the stage, and the config path is what stands behind this flag's name. -/
theorem eq_of_parse_restart {path : String} (h : LooksLikeFlag path) {stage : Stage} {task : Task}
    {found : Option String}
    (hp : parse ["--config-path", path, stage.subcommand] = .task task found) :
    task = .stage stage ∧ ∃ rest, path = "--config-path=" ++ rest ∧ found = some rest := by
  rw [parse_configPath, beforeTask] at hp
  cases hflag : flag path with
  | word => exact absurd h (flag_eq_word_iff.1 hflag)
  | configPath =>
    -- the subcommand is taken for the path
    rw [hflag, beforeTask, flag_subcommand, beforeTask] at hp
    cases stage <;> cases hp
  | configPathTo rest =>
    simp only [hflag, beforeTask_subcommand] at hp
    split at hp
    · cases hp
    · cases hp
      exact ⟨rfl, rest, eq_append_of_flag hflag, rfl⟩
  | version => rw [hflag] at hp; cases hp
  | help => rw [hflag] at hp; cases hp
  | separator => rw [hflag] at hp; cases hp
  | unknown misuse => rw [hflag] at hp; cases hp

/-! ## Config paths are not empty -/

theorem behindTask_path {task found : Task} {due : Bool} {path read : Option String}
    {arguments : List String} (hpath : ∀ p ∈ path, p ≠ "")
    (h : behindTask task due path arguments = .task found read) : ∀ p ∈ read, p ≠ "" := by
  fun_induction behindTask task due path arguments
  case case2 | case10 => cases h; exact hpath
  -- a new path is taken on only after a look whether it is empty
  case case5 hne ih | case8 hne ih => exact ih (by simpa using hne) h
  case case6 ih => exact ih hpath h
  all_goals cases h

theorem helpOn_ne_task {arguments : List String} {task : Task} {path : Option String} :
    helpOn arguments ≠ .task task path := by
  unfold helpOn
  split
  · nofun
  · split <;> nofun
  · nofun

theorem beforeTask_path {task : Task} {due : Bool} {path read : Option String}
    {arguments : List String} (hpath : ∀ p ∈ path, p ≠ "")
    (h : beforeTask due path arguments = .task task read) : ∀ p ∈ read, p ≠ "" := by
  fun_induction beforeTask due path arguments
  case case3 hne ih | case9 hne ih => exact ih (by simpa using hne) h
  case case4 => exact absurd h helpOn_ne_task
  case case5 => exact behindTask_path hpath h
  case case7 ih => exact ih hpath h
  all_goals cases h

/-- A config path that is read from arguments is not empty. -/
theorem ne_empty_of_parse {arguments : List String} {task : Task} {path : Option String}
    (h : parse arguments = .task task path) : ∀ p ∈ path, p ≠ "" :=
  beforeTask_path (by simp) h

end Arguments

/-! ## The configuration of the restarted program -/

namespace Config
open Arguments
variable {config : Config} {program : String} {files : Files}
  {environment : String → Option String} {path : Option String} {hop : Hop} {stage : Stage}

theorem resolve_builtin (hset : config.commands hop = none)
    (hentry : config.entryPoint = some program) (hhop : hop.builtin? = some stage) :
    config.resolve hop = .ok (some ⟨program, config.stageArguments stage⟩) := by
  simp only [resolve, hset, builtin?, hhop, hentry]
  rfl

theorem ofProcess_of_file {path : String} {settings : FileSettings}
    (h : FileSettings.load files path = .ok settings) :
    ofProcess program files environment (some path) =
      .ok (applyAll {} [.entryPoint program, .file path settings, .environment environment]) := by
  simp only [ofProcess, h]
  rfl

theorem ofProcess_origin (h : ofProcess program files environment path = .ok config) :
    config.filePath = path ∧ config.entryPoint = some program := by
  cases path with
  | none => cases h; exact ⟨rfl, rfl⟩
  | some path =>
    cases hload : FileSettings.load files path with
    | error cause =>
      simp only [ofProcess, hload] at h
      cases h
    | ok settings =>
      rw [ofProcess_of_file hload] at h
      cases h
      exact ⟨rfl, rfl⟩

/-- The configurations answer every hop alike, and in the same time. -/
structure Agrees (config other : Config) : Prop where
  timeout_eq : other.timeout = config.timeout
  resolve_eq : ∀ hop, other.resolve hop = config.resolve hop

/-- What the arguments of a restart are read as. -/
theorem parse_stageArguments (hpath : ∀ p ∈ config.filePath, p ≠ "" ∧ ¬ LooksLikeFlag p)
    (stage : Stage) :
    parse (config.stageArguments stage) = .task (.stage stage) config.filePath := by
  unfold stageArguments
  cases hfile : config.filePath with
  | none => exact beforeTask_subcommand none stage
  | some p =>
    obtain ⟨hne, hword⟩ := hpath p hfile
    exact parse_restart_of_word hne hword stage

/-- **The restarted program runs with the configuration of its parent**, unless the config path
looks like a flag. Then it is not the config path that the restarted program reads, but at most the
text behind the name of this flag. -/
theorem restart_agrees {arguments : List String} {task : Task}
    (hparse : parse arguments = .task task path)
    (hconfig : ofProcess program files environment path = .ok config)
    (hset : config.commands hop = none) (hhop : hop.builtin? = some stage) :
    ∃ command, config.resolve hop = .ok (some command) ∧ command.program = program ∧
      ((∀ p ∈ path, ¬ LooksLikeFlag p) → ∃ read other,
        parse command.args = .task (.stage stage) read ∧
        ofProcess program files environment read = .ok other ∧ config.Agrees other) ∧
      (∀ p ∈ path, LooksLikeFlag p → ∀ found read, parse command.args = .task found read →
        found = .stage stage ∧ ∃ rest, p = "--config-path=" ++ rest ∧ read = some rest) := by
  obtain ⟨hfile, hentry⟩ := ofProcess_origin hconfig
  refine ⟨_, resolve_builtin hset hentry hhop, rfl, ?_, ?_⟩
  · intro hword
    have hread : parse (config.stageArguments stage) = .task (.stage stage) path := by
      rw [← hfile]
      refine parse_stageArguments (fun p hp => ?_) stage
      rw [hfile] at hp
      exact ⟨ne_empty_of_parse hparse p hp, hword p hp⟩
    exact ⟨path, config, hread, hconfig, rfl, fun _ => rfl⟩
  · rintro p hp hflag found read hread
    have hargs : config.stageArguments stage = ["--config-path", p, stage.subcommand] := by
      rw [stageArguments, hfile, Option.mem_def.1 hp]
      rfl
    rw [hargs] at hread
    exact eq_of_parse_restart hflag hread

end Config

/-! ## Two config files -/

/-- Files with these texts, and nothing else. -/
def Files.ofTexts (texts : List (String × String)) : Files where
  home := ""
  holds path := (texts.lookup path).isSome
  contents? path := (texts.lookup path).map fun text => .bytes (Text.Utf8.encode text)

/-- Two config files, the path of one of which is a flag that names the other. -/
def Files.nearAndFar : Files := .ofTexts [
  ("--config-path=coin-ops.yaml", "commands:\n  sign_submit: near-signer\n"),
  ("coin-ops.yaml", "commands:\n  sign_submit: far-signer\n")]

namespace Config
open Arguments
variable {files : Files} {program : String}

/-- A file that sets the command of the last hop only, for a program without environment. -/
theorem exists_config_of_text {path text command : String}
    (hfile : files.contents? path = some (.bytes (Text.Utf8.encode text)))
    (hblank : isBlankCommand command = false)
    (hsettings : (FileSettings.ofBytes? (Text.Utf8.encode text)).map (fun settings =>
      (settings.commands .sdkSubmit, settings.commands .signSubmit)) = some (none, some command)) :
    ∃ config, ofProcess program files (fun _ => none) (some path) = .ok config ∧
      config.commands .sdkSubmit = none ∧ config.commands .signSubmit = some command := by
  obtain ⟨settings, hread, hcommands⟩ := Option.map_eq_some_iff.1 hsettings
  obtain ⟨hsdk, hsign⟩ := Prod.mk.inj hcommands
  have hload : FileSettings.load files path = .ok settings := by
    simp only [FileSettings.load, hfile, hread]
  refine ⟨_, ofProcess_of_file hload, ?_, ?_⟩
  · simp [applyAll, apply, override, hsdk]
  · simp [applyAll, apply, override, hsign, hblank]

theorem exists_config_near : ∃ config,
    ofProcess "coin-ops" .nearAndFar (fun _ => none) (some "--config-path=coin-ops.yaml") =
      .ok config ∧
    config.commands .sdkSubmit = none ∧ config.commands .signSubmit = some "near-signer" := by
  have hfile : Files.nearAndFar.contents? "--config-path=coin-ops.yaml" =
      some (.bytes (Text.Utf8.encode "commands:\n  sign_submit: near-signer\n")) := by
    rfl
  exact exists_config_of_text hfile (by decide) (by decide +kernel)

theorem exists_config_far : ∃ config,
    ofProcess "coin-ops" .nearAndFar (fun _ => none) (some "coin-ops.yaml") = .ok config ∧
    config.commands .sdkSubmit = none ∧ config.commands .signSubmit = some "far-signer" := by
  have hfile : Files.nearAndFar.contents? "coin-ops.yaml" =
      some (.bytes (Text.Utf8.encode "commands:\n  sign_submit: far-signer\n")) := by
    rfl
  exact exists_config_of_text hfile (by decide) (by decide +kernel)

/-- A plain path leads the restarted program to the same file. -/
theorem restart_agrees_of_plain_path :
    ∃ config command read other,
      ofProcess "coin-ops" .nearAndFar (fun _ => none) (some "coin-ops.yaml") = .ok config ∧
      config.resolve .sdkSubmit = .ok (some command) ∧
      parse command.args = .task (.stage .submit) read ∧
      ofProcess "coin-ops" .nearAndFar (fun _ => none) read = .ok other ∧
      config.Agrees other := by
  obtain ⟨config, hconfig, hset, -⟩ := exists_config_far
  have hparse : parse ["--config-path", "coin-ops.yaml", "raw-engine"] =
      .task (.stage .rawEngine) (some "coin-ops.yaml") := by
    decide
  have hword : ∀ p ∈ some "coin-ops.yaml", ¬ LooksLikeFlag p := by
    rintro _ ⟨⟩
    exact flag_eq_word_iff.1 (by decide)
  obtain ⟨command, hresolve, -, hagrees, -⟩ := restart_agrees hparse hconfig hset rfl
  obtain ⟨read, other, hread, hother, hboth⟩ := hagrees hword
  exact ⟨config, command, read, other, hconfig, hresolve, hread, hother, hboth⟩

/-- **A restart that reads another file.** The config path is a flag that names another config file,
and the restarted program would sign by the command of that one. -/
theorem restart_reads_other_file :
    ∃ config command other,
      parse ["--config-path=--config-path=coin-ops.yaml", "raw-engine"] =
        .task (.stage .rawEngine) (some "--config-path=coin-ops.yaml") ∧
      ofProcess "coin-ops" .nearAndFar (fun _ => none) (some "--config-path=coin-ops.yaml") =
        .ok config ∧
      config.resolve .sdkSubmit = .ok (some command) ∧
      parse command.args = .task (.stage .submit) (some "coin-ops.yaml") ∧
      ofProcess "coin-ops" .nearAndFar (fun _ => none) (some "coin-ops.yaml") = .ok other ∧
      config.resolve .signSubmit = .ok (some ⟨"near-signer", []⟩) ∧
      other.resolve .signSubmit = .ok (some ⟨"far-signer", []⟩) := by
  obtain ⟨config, hconfig, hset, hnear⟩ := exists_config_near
  obtain ⟨other, hother, -, hfar⟩ := exists_config_far
  obtain ⟨hfile, hentry⟩ := ofProcess_origin hconfig
  have hnear' : CommandLine.parse? "near-signer" = some ⟨"near-signer", []⟩ := by decide
  have hfar' : CommandLine.parse? "far-signer" = some ⟨"far-signer", []⟩ := by decide
  refine ⟨config, _, other, by decide, hconfig, resolve_builtin hset hentry rfl, ?_, hother,
    ?_, ?_⟩
  · rw [stageArguments, hfile]
    decide
  · simp only [resolve, hnear, hnear']
  · simp only [resolve, hfar, hfar']

end Config

end CoinRelay
