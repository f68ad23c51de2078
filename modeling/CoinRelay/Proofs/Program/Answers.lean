import CoinRelay.Program
import CoinRelay.Proofs.Config.Restart
import CoinRelay.Proofs.Json.Printed
import CoinRelay.Proofs.Planner.Inputs
import CoinRelay.Proofs.Relay.Reported
import CoinRelay.Proofs.Text.Utf8

/-! # What a run answers

A run that was asked for a task either prints one line, which stands for an object with the keys of
its answer, or prints nothing and tells by its exit code whose fault that is: a request that cannot
be understood counts before a config file that cannot be read. -/

namespace CoinRelay

/-- The keys that the answer to a task has in any case. -/
def Task.answerKeys : Task → List String
  | .plan => ["plans"]
  | .stage _ => ["status", "reason", "operation_id"]

namespace Program

/-! ## What a run is given -/

/-- Bytes spell a request, with room for so many containers inside each other: they are those of a
text that stands, between blanks, for an object. -/
def Spells (room : ℕ) (stdin : List UInt8) (request : Fields) : Prop :=
  ∃ raw : String, stdin = Text.Utf8.encode raw ∧
    Json.Denotes room (.value (.obj request)) (Text.trimChars raw.toList)

/-- Bytes on which a task can work. -/
def Understood (room : ℕ) (task : Task) (stdin : List UInt8) : Prop :=
  ∃ request, Spells room stdin request ∧ (task = .plan → PlannerInput.Described request)

/-- No settings can be read at a path: it does not open, it is a directory, or its bytes are not
those of settings. -/
def Unreadable (files : Files) (path : String) : Prop :=
  ∀ bytes, files.contents? path = some (.bytes bytes) → FileSettings.ofBytes? bytes = none

/-- A stage was given a config file without settings. -/
def Misconfigured (files : Files) (task : Task) (path : Option String) : Prop :=
  (∃ stage, task = .stage stage) ∧ ∃ p ∈ path, Unreadable files p

/-- One line and nothing behind it, which stands for an object with the keys of an answer. -/
def Answers (task : Task) (stdout : String) : Prop :=
  ∃ line answer, stdout.toList = line ++ ['\n'] ∧ '\n' ∉ line ∧
    Json.Denotes (Json.maxDepth + 1) (.value (.obj answer)) line ∧
    ∀ key ∈ task.answerKeys, (Fields.get? answer key).isSome

theorem parseRequestBytes?_eq_some_iff {stdin : List UInt8} {request : Fields} :
    parseRequestBytes? stdin = some request ↔ Spells Json.maxDepth stdin request := by
  simp only [parseRequestBytes?, Option.bind_eq_some_iff, Text.Utf8.strict?_eq_some_iff,
    parseRequest?_eq_some_iff, Spells]

/-- Bytes spell one request at most. -/
theorem Spells.unique {stdin : List UInt8} {request request' : Fields}
    (h : Spells Json.maxDepth stdin request) (h' : Spells Json.maxDepth stdin request') :
    request = request' :=
  Option.some.inj ((parseRequestBytes?_eq_some_iff.2 h).symm.trans
    (parseRequestBytes?_eq_some_iff.2 h'))

theorem exists_load_eq_error_iff {files : Files} {path : String} :
    (∃ cause, FileSettings.load files path = .error cause) ↔ Unreadable files path := by
  unfold FileSettings.load Unreadable
  split
  · next hno => simp [hno]
  · next hdirectory => simp [hdirectory]
  · next bytes hbytes =>
    cases hread : FileSettings.ofBytes? bytes <;> simp [hbytes, hread]

/-! ## How a run ends -/

/-- A command that is waited for replies with what was read of its output, if it replies. -/
theorem parseReply_of_await {limit : Duration} {start : Host.FileTree → Host.Launch × Host.FileTree}
    {h : History} {body : Fields} (hb : ((await limit start).run h).1 = .ok body) :
    ∃ stdout, parseReply stdout = .ok body := by
  have hreply : (start h.files).1.reply limit = .ok body := hb
  unfold Host.Launch.reply at hreply
  split at hreply
  · cases hreply
  · cases hreply
  · split at hreply
    · cases hreply
    · unfold Host.Ending.reply at hreply
      split at hreply
      · exact ⟨_, hreply⟩
      · cases hreply

/-- A stage ends for a config file that cannot be read, or with the outcome of the stage. -/
theorem runStage_cases (world : World) (program : String) (delegate : Delegate)
    (files : Host.FileTree) (stage : Stage) (path : Option String) (request : Fields) :
    let unreadable := ∃ p ∈ path, Unreadable (files.view world.home) p
    let result := (runStage world program delegate files stage path request).result
    unreadable ∧ result = badConfig ∨
      ¬ unreadable ∧ ∃ s : Surroundings, s.delegate = delegate ∧
        ∃ h, result = answer ((s.run stage request).run h).1.toJson := by
  intro unreadable result
  cases path with
  | none => exact .inr ⟨by simp [unreadable], _, rfl, _, rfl⟩
  | some p =>
    have hiff : unreadable ↔ ∃ cause,
        FileSettings.load (files.view world.home) p = .error cause := by
      simp [unreadable, exists_load_eq_error_iff]
    cases hload : FileSettings.load (files.view world.home) p with
    | error cause =>
      refine .inl ⟨hiff.2 ⟨cause, hload⟩, ?_⟩
      simp only [result, runStage, Config.ofProcess, hload]
      rfl
    | ok settings =>
      refine .inr ⟨fun h => ?_, ?_⟩
      · obtain ⟨cause, hcause⟩ := hiff.1 h
        rw [hload] at hcause
        cases hcause
      · simp only [result, runStage, Config.ofProcess_of_file hload]
        exact ⟨_, rfl, _, rfl⟩

/-- **The ways in which a run for a task ends**: for what it was given, or with what the task makes
of the request. Every reply that its stage gets was read. -/
theorem run_cases {world : World} {program : String} {files : Host.FileTree}
    {arguments : List String} {task : Task} {path : Option String}
    (h : Arguments.parse arguments = .task task path) (stdin : List UInt8) :
    let result := run world program files arguments stdin
    (parseRequestBytes? stdin = none ∧ result = malformed) ∨
      ∃ request, parseRequestBytes? stdin = some request ∧
        ((task = .plan ∧ result = plan request) ∨
          ∃ stage delegate, task = .stage stage ∧
            (∀ call h body, ((delegate call).run h).1 = .ok body →
              ∃ stdout, parseReply stdout = .ok body) ∧
            result = (runStage world program delegate files stage path request).result) := by
  intro result
  have hresult : result = (runFor world program 64 files arguments stdin).result := rfl
  unfold runFor at hresult
  simp only [h] at hresult
  cases hread : parseRequestBytes? stdin with
  | none => exact .inl ⟨rfl, by rw [hresult, hread]⟩
  | some request =>
    refine .inr ⟨request, rfl, ?_⟩
    rw [hread] at hresult
    cases task with
    | plan => exact .inl ⟨rfl, hresult⟩
    | stage stage => exact .inr ⟨stage, _, rfl, fun _ _ _ hb => parseReply_of_await hb, hresult⟩

/-! ## What is printed -/

/-- A value that is read back as an object with the keys of an answer is printed as one. -/
theorem answers_of_reread {task : Task} {v : Json} {fields : Fields}
    (hd : v.depth ≤ Json.maxDepth + 1) (hv : v.reread? = some (.obj fields))
    (hkeys : ∀ key ∈ task.answerKeys, (fields.get? key).isSome) :
    Answers task (answer v).stdout := by
  refine ⟨v.render, fields, ?_, Json.newline_not_mem_render v, Json.denotes_render hd hv, hkeys⟩
  simp [answer, Json.text]

/-- The plans of an input make an answer. -/
theorem answers_of_plans (plans : List Plan) :
    Answers .plan (answer (.obj [("plans", .arr (plans.map Plan.toJson))])).stdout := by
  have hplans : (Json.arr (plans.map Plan.toJson)).Whole := by
    rw [Json.whole_arr_iff, List.forall_mem_map]
    exact fun plan _ => ⟨plan.canonical_toJson, plan.exact_toJson⟩
  have hwhole : (Json.obj [("plans", .arr (plans.map Plan.toJson))]).Whole :=
    Json.whole_obj_iff.2 ⟨List.pairwise_singleton _ _, List.forall_mem_singleton.2 hplans⟩
  have hdepth : (Json.arr (plans.map Plan.toJson)).depth ≤ 2 := by
    refine Nat.add_le_add_right (Json.depthItems_le.2 ?_) 1
    exact List.forall_mem_map.2 fun plan _ => Nat.le_refl 1
  refine answers_of_reread ?_ (hwhole.1.reread?_eq hwhole.2)
    (List.forall_mem_singleton.2 rfl)
  refine (Json.depth_obj_le.2 (List.forall_mem_singleton.2 hdepth)).trans (by decide)

/-- A clean outcome that reports what was read makes an answer. -/
theorem answers_of_clean {outcome : Outcome} (h : outcome.Clean (Json.Parsed Json.maxDepth))
    (stage : Stage) : Answers (.stage stage) (answer outcome.toJson).stdout := by
  have hmembers : ∀ m ∈ outcome.members, m.2.Parsed Json.maxDepth :=
    (Outcome.forall_mem_members ⟨trivial, Nat.zero_le _, trivial⟩
      fun _ => ⟨trivial, Nat.zero_le _, trivial⟩).2 h.values
  have hparsed := Json.parsed_ofList hmembers
  obtain ⟨fields, hfields⟩ := Json.exists_rereadMembers? hparsed.finite
  have hreread : outcome.toJson.reread? = some (.obj fields) := by
    rw [Outcome.toJson, Json.ofMembers, Json.reread?_obj hparsed.canonical.1, hfields]
    rfl
  refine answers_of_reread hparsed.depth_le hreread fun key hkey => ?_
  obtain ⟨v, hv⟩ : ∃ v, (Fields.ofList outcome.members).get? key = some v := by
    rw [← Option.isSome_iff_exists, Outcome.get?_ofList_members]
    simp only [Task.answerKeys, List.mem_cons, List.not_mem_nil, or_false] at hkey
    rcases hkey with rfl | rfl | rfl <;> simp
  obtain ⟨w, hw⟩ := Json.exists_reread?_of_get? hfields hv
  rw [Json.get?_rereadMembers? hfields, hv, Option.bind_some, hw]
  rfl

/-- The planner answers what describes an input, and takes everything else for malformed. -/
theorem plan_cases (request : Fields) :
    ¬ PlannerInput.Described request ∧ plan request = malformed ∨
      PlannerInput.Described request ∧ (plan request).exit = 0 ∧
        Answers .plan (plan request).stdout := by
  rw [← PlannerInput.isSome_ofJson?_obj]
  unfold plan
  cases PlannerInput.ofJson? (.obj request) with
  | none => exact .inl ⟨nofun, rfl⟩
  | some input => exact .inr ⟨rfl, rfl, answers_of_plans input.plans⟩

/-- What a stage makes of a request that was read is an answer, if what it hears was read too. -/
theorem answers_of_run {s : Surroundings} {stdin : List UInt8} {request : Fields}
    (hr : Spells Json.maxDepth stdin request)
    (ha : ∀ call h body, ((s.delegate call).run h).1 = .ok body →
      ∃ stdout, parseReply stdout = .ok body) (stage : Stage) (h : History) :
    Answers (.stage stage) (answer ((s.run stage request).run h).1.toJson).stdout := by
  obtain ⟨raw, -, hraw⟩ := hr
  have hrequest := parsed_of_parseRequest? (parseRequest?_eq_some_iff.2 hraw)
  refine answers_of_clean (Surroundings.clean_run_of_parsed hrequest ?_ stage h) stage
  intro call k body hb
  obtain ⟨stdout, hstdout⟩ := ha call k body hb
  exact parsed_of_parseReply hstdout

/-! ## One line or nothing -/

/-- **The ways in which a run for a task can end.** -/
theorem result_cases {world : World} {program : String} {files : Host.FileTree}
    {arguments : List String} {task : Task} {path : Option String}
    (h : Arguments.parse arguments = .task task path) (stdin : List UInt8) :
    let result := run world program files arguments stdin
    let understood := Understood Json.maxDepth task stdin
    let misconfigured := Misconfigured (files.view world.home) task path
    ¬ understood ∧ result = malformed ∨
      understood ∧ misconfigured ∧ result = badConfig ∨
      understood ∧ ¬ misconfigured ∧ result.exit = 0 ∧ Answers task result.stdout := by
  intro result understood misconfigured
  rcases run_cases h stdin with ⟨hread, hresult⟩ | ⟨request, hread, hrun⟩
  · refine .inl ⟨?_, hresult⟩
    rintro ⟨request, hspells, -⟩
    rw [parseRequestBytes?_eq_some_iff.2 hspells] at hread
    cases hread
  have hspells := parseRequestBytes?_eq_some_iff.1 hread
  rcases hrun with ⟨rfl, hresult⟩ | ⟨stage, delegate, rfl, hreplies, hresult⟩
  · rw [show result = plan request from hresult]
    rcases plan_cases request with ⟨hno, hend⟩ | ⟨hdescribed, hexit, hline⟩
    · refine .inl ⟨?_, hend⟩
      rintro ⟨request', hspells', hdescribed⟩
      rw [hspells.unique hspells'] at hno
      exact hno (hdescribed rfl)
    · refine .inr (.inr ⟨⟨request, hspells, fun _ => hdescribed⟩, ?_, hexit, hline⟩)
      rintro ⟨⟨stage, hstage⟩, -⟩
      cases hstage
  · have hunderstood : understood := ⟨request, hspells, nofun⟩
    rw [show result = _ from hresult]
    rcases runStage_cases world program delegate files stage path request with
      ⟨hpath, hend⟩ | ⟨hpath, s, rfl, k, hend⟩
    · exact .inr (.inl ⟨hunderstood, ⟨⟨stage, rfl⟩, hpath⟩, hend⟩)
    · rw [hend]
      exact .inr (.inr ⟨hunderstood, fun hbad => hpath hbad.2, rfl,
        answers_of_run hspells hreplies stage k⟩)

/-- **One line or nothing.** A run for a task fails for a request that is not understood, whatever
the state of the config file, and otherwise for a config file that cannot be read; then it prints
nothing. In every other case it prints one line, which is its answer, whatever the request and the
replies of other commands hold. -/
theorem run_of_task {world : World} {program : String} {files : Host.FileTree}
    {arguments : List String} {task : Task} {path : Option String}
    (h : Arguments.parse arguments = .task task path) (stdin : List UInt8) :
    let result := run world program files arguments stdin
    let understood := Understood Json.maxDepth task stdin
    let misconfigured := Misconfigured (files.view world.home) task path
    (result.exit = 2 ↔ ¬ understood) ∧
    (result.exit = 1 ↔ understood ∧ misconfigured) ∧
    (result.exit = 0 ↔ understood ∧ ¬ misconfigured) ∧
    (result.exit ≠ 0 → result.stdout = "") ∧
    (result.exit = 0 → Answers task result.stdout) := by
  intro result understood misconfigured
  rcases result_cases h stdin with ⟨hno, hend⟩ | ⟨hyes, hbad, hend⟩ | ⟨hyes, hgood, hexit, hline⟩
  · have hexit : result.exit = 2 := congrArg Result.exit hend
    have hnothing : result.stdout = "" := congrArg Result.stdout hend
    simp [hexit, hnothing, show ¬ understood from hno]
  · have hexit : result.exit = 1 := congrArg Result.exit hend
    have hnothing : result.stdout = "" := congrArg Result.stdout hend
    simp [hexit, hnothing, show understood from hyes, show misconfigured from hbad]
  · simp [show result.exit = 0 from hexit, show understood from hyes,
      show ¬ misconfigured from hgood, show Answers task result.stdout from hline]

/-- No environment, and no other commands. -/
def bareWorld : World where
  home := "home"
  environment := fun _ => none
  launch := fun files _ _ => (.refused "No such file or directory (os error 2)", files)

theorem entryAt?_of_noFiles {place : Host.Place} {entry : Host.Entry}
    (h : Host.FileTree.entryAt? {} place = some entry) : entry = .directory := by
  simp only [Host.FileTree.entryAt?, List.lookup_nil] at h
  exact (Option.some.inj (Option.ite_none_right_eq_some.1 h).2).symm

/-- Where there are no files, a path leads to a directory at most. -/
theorem unreadable_of_noFiles (home path : String) :
    Unreadable (Host.FileTree.view {} home) path := by
  intro bytes hbytes
  obtain ⟨entry, hentry, hcontents⟩ := Option.map_eq_some_iff.1 hbytes
  have hfind : Host.FileTree.find {} path = .ok entry := by
    cases hfound : Host.FileTree.find {} path <;> rw [hfound] at hentry <;> cases hentry
    rfl
  unfold Host.FileTree.find at hfind
  obtain ⟨place, -, hplace⟩ := bind_eq_ok.1 hfind
  split at hplace
  · next hat =>
    cases hplace
    rw [entryAt?_of_noFiles hat] at hcontents
    cases hcontents
  · cases hplace

/-- Arguments that name a config file. -/
def lostConfig : List String := ["--config-path", "coin-ops.yaml", "route"]

/-- The bytes of an object without members. -/
def emptyRequest : List UInt8 := Text.Utf8.encode (Json.obj []).text

theorem spells_emptyRequest : Spells Json.maxDepth emptyRequest [] :=
  ⟨_, rfl, .emptyObject (g := []) nofun⟩

/-- A request counts before a config file: where both are wrong the request is at fault, and where
neither is the run answers. -/
theorem run_of_task_of_lostConfig :
    let bad := run bareWorld "coin-ops" {} lostConfig (Text.Utf8.encode "[]")
    let lost := run bareWorld "coin-ops" {} lostConfig emptyRequest
    let good := run bareWorld "coin-ops" {} ["route"] emptyRequest
    bad.exit = 2 ∧ lost.exit = 1 ∧ lost.stdout = "" ∧
      good.exit = 0 ∧ Answers (.stage .route) good.stdout := by
  intro bad lost good
  have hparse : Arguments.parse lostConfig = .task (.stage .route) (some "coin-ops.yaml") := by
    rfl
  have hunderstood : Understood Json.maxDepth (.stage .route) emptyRequest :=
    ⟨[], spells_emptyRequest, nofun⟩
  have hmisconfigured : Misconfigured (Host.FileTree.view {} "home") (.stage .route)
      (some "coin-ops.yaml") :=
    ⟨⟨.route, rfl⟩, "coin-ops.yaml", rfl, unreadable_of_noFiles _ _⟩
  have hbad : bad.exit = 2 := by
    refine (run_of_task hparse _).1.2 ?_
    rintro ⟨request, hspells, -⟩
    have hread := parseRequestBytes?_eq_some_iff.2 hspells
    rw [parseRequestBytes?, Text.Utf8.strict?_eq_some_iff.2 rfl] at hread
    cases hread
  have hlost : lost.exit = 1 := (run_of_task hparse _).2.1.2 ⟨hunderstood, hmisconfigured⟩
  have hnothing : lost.stdout = "" := by
    refine (run_of_task hparse _).2.2.2.1 ?_
    rw [show _ = 1 from hlost]
    decide
  have hparse' : Arguments.parse ["route"] = .task (.stage .route) none := by rfl
  have hgood : good.exit = 0 := by
    refine (run_of_task hparse' _).2.2.1.2 ⟨hunderstood, ?_⟩
    rintro ⟨-, p, hp, -⟩
    cases hp
  exact ⟨hbad, hlost, hnothing, hgood, (run_of_task hparse' _).2.2.2.2 hgood⟩

/-- An object that nests one container deeper than a request may. -/
def deepRequest : Fields := [("a", Surroundings.nested Json.maxDepth)]

theorem whole_deepRequest : (Json.obj deepRequest).Whole :=
  Json.whole_obj_iff.2 ⟨List.pairwise_singleton _ _,
    List.forall_mem_singleton.2 (Surroundings.whole_nested _)⟩

theorem depth_deepRequest : (Json.obj deepRequest).depth = Json.maxDepth + 1 := by
  simp [deepRequest, Json.depth, Json.depthMembers, Surroundings.depth_nested]

theorem spells_deepRequest :
    Spells (Json.maxDepth + 1) (Text.Utf8.encode (Json.obj deepRequest).text) deepRequest := by
  obtain ⟨hcanonical, hexact⟩ := whole_deepRequest
  refine ⟨_, rfl, ?_⟩
  rw [Json.text, String.toList_ofList, (Json.trimmed_render_obj deepRequest).trimChars]
  exact Json.denotes_render depth_deepRequest.le (hcanonical.reread?_eq hexact)

/-- **Not every object is a request**: one that nests too deep is refused. -/
theorem malformed_of_deepRequest :
    ¬ ∀ (world : World) (program : String) (files : Host.FileTree) (arguments : List String)
      (stdin : List UInt8) (task : Task) (path : Option String),
      Arguments.parse arguments = .task task path →
        ((run world program files arguments stdin).exit = 2 ↔
          ¬ ∃ room, Understood room task stdin) := by
  intro hall
  have hparse : Arguments.parse ["route"] = .task (.stage .route) none := by rfl
  have hread : parseRequest? (Json.obj deepRequest).text = none := by
    rw [parseRequest?_text whole_deepRequest.1.1, if_neg]
    rw [depth_deepRequest]
    decide
  have hno : ¬ Understood Json.maxDepth (.stage .route)
      (Text.Utf8.encode (Json.obj deepRequest).text) := by
    rintro ⟨request, hspells, -⟩
    have hrequest := parseRequestBytes?_eq_some_iff.2 hspells
    rw [parseRequestBytes?, Text.Utf8.strict?_eq_some_iff.2 rfl, Option.bind_some,
      hread] at hrequest
    cases hrequest
  have hexit : (run bareWorld "coin-ops" {} ["route"]
      (Text.Utf8.encode (Json.obj deepRequest).text)).exit = 2 := by
    rcases result_cases hparse (Text.Utf8.encode (Json.obj deepRequest).text) with
      ⟨-, hend⟩ | ⟨hyes, -⟩ | ⟨hyes, -⟩
    · exact congrArg Result.exit hend
    · exact absurd hyes hno
    · exact absurd hyes hno
  exact (hall _ _ _ _ _ _ _ hparse).1 hexit ⟨_, deepRequest, spells_deepRequest, nofun⟩

end Program

end CoinRelay
