import ComponentForge.Proofs.Generator.Refusals
import ComponentForge.Proofs.Letter.Respelling

/-!
# Spellings of a name

Under the snake-case policy the directory of a module and the file of an entity spell a name
themselves. For ASCII names it is the name of the same entity: everything derived from it is the
same, it is accepted, and calls with it do what calls with the name as given do.
-/

namespace ComponentForge

open Layout

namespace NamingPolicy

/-- The name of the entity in the module passes every check of a name. -/
structure Accepts (policy : NamingPolicy) (module entity : Text) : Prop where
  parses : EntityName.parse (module ++ ':' :: entity) =
    .ok ⟨module ++ ':' :: entity, some module, entity⟩
  module : ∃ dir, policy.checkedModuleDir module = .ok dir
  entity : policy.checkEntity entity = .ok ()

variable {policy : NamingPolicy} {module entity : Text}

namespace Accepts

theorem qualified (h : policy.Accepts module entity) :
    Qualified (module ++ ':' :: entity) module entity := by
  rcases EntityName.parse_eq_ok_iff.1 h.parses with ⟨-, same⟩ | ⟨m, e, qualified, same⟩
  · cases congrArg EntityName.module same
  · obtain rfl : module = m := Option.some.inj (congrArg EntityName.module same)
    obtain rfl : entity = e := congrArg EntityName.entity same
    exact qualified

theorem moduleDir_ne_nil (h : policy.Accepts module entity) : policy.moduleDir module ≠ [] := by
  obtain ⟨dir, checked⟩ := h.module
  intro nothing
  rw [checkedModuleDir_of_nil nothing] at checked
  cases checked

theorem not_wordless (h : policy.Accepts module entity) : ¬ Wordless entity := by
  intro wordless
  have checked := h.entity
  rw [checkEntity_of_wordless wordless] at checked
  cases checked

theorem not_refused {config : Config} (h : config.policy.Accepts module entity) :
    ¬ config.RefusesEntity (module ++ ':' :: entity) := by
  rintro (⟨-, unqualified⟩ | ⟨m, e, qualified, wordless⟩)
  · exact unqualified _ _ h.qualified
  · obtain ⟨rfl, rfl⟩ := h.qualified.unique qualified
    rcases wordless with wordless | snake
    · exact h.not_wordless wordless
    · exact h.moduleDir_ne_nil ((moduleDir_eq_nil_iff qualified.module).2 snake)

theorem not_refusesModule {config : Config} (h : config.policy.Accepts module entity) :
    ¬ config.RefusesModule module := by
  rintro (not_part | snake)
  · exact not_part h.qualified.module
  · exact h.moduleDir_ne_nil ((moduleDir_eq_nil_iff h.qualified.module).2 snake)

end Accepts

theorem accepts_of_isPart (module_part : IsPart module) (entity_part : IsPart entity)
    (dir : policy.moduleDir module ≠ []) (words : ¬ Wordless entity) : policy.Accepts module entity where
  parses := EntityName.parse_eq_ok_iff.2 (Or.inr ⟨_, _, ⟨rfl, module_part, entity_part⟩, rfl⟩)
  module := ⟨_, checkedModuleDir_of_ne_nil dir⟩
  entity := checkEntity_of_not_wordless words

end NamingPolicy

/-- Words can stand in a name. -/
theorem IsWord.isPart {word : Text} (h : IsWord word) : IsPart word where
  ne_nil := h.ne_nil
  clear c hc := by
    have other : ∀ d : Char, isNameLetter d = false → c ≠ d := by
      rintro d not_letter rfl
      exact h.notMem not_letter hc
    exact ⟨other ':' (by decide), other '/' (by decide), other '\\' (by decide), other '.' (by decide),
      h.nonblank hc⟩

section Snake

variable {config : Config} {module entity : Text}

theorem Config.moduleDir_eq (snake : config.snakeCaseFileNames) (module : Text) :
    config.policy.moduleDir module = Casing.snake.apply module := by
  simp [NamingPolicy.moduleDir, Config.policy, snake]

theorem Config.fileName_eq (snake : config.snakeCaseFileNames) (entity : Text) :
    config.policy.fileName entity = Casing.snake.apply entity := by
  simp [NamingPolicy.fileName, NamingPolicy.fileCasing, Config.policy, snake]

variable (snake : config.snakeCaseFileNames) (module_ascii : ∀ c ∈ module, Letter.isAscii c)
  (entity_ascii : ∀ c ∈ entity, Letter.isAscii c)

include snake module_ascii

theorem Config.moduleDir_moduleDir :
    config.policy.moduleDir (config.policy.moduleDir module) = config.policy.moduleDir module := by
  rw [config.moduleDir_eq snake, config.moduleDir_eq snake, Casing.apply_snake .snake module_ascii]

include entity_ascii

theorem Names.derive_spelled :
    Names.derive config (config.policy.moduleDir module) (config.policy.fileName entity) =
      Names.derive config module entity := by
  have dir := Config.moduleDir_moduleDir snake module_ascii
  have moduleVariable : config.policy.moduleVariable (config.policy.moduleDir module) =
      config.policy.moduleVariable module := by
    have casing : (if config.policy.snakeCase then Casing.snake else Casing.camel) = .snake :=
      if_pos snake
    rw [NamingPolicy.moduleVariable, NamingPolicy.moduleVariable, casing, config.moduleDir_eq snake,
      Casing.apply_snake .snake module_ascii]
  have file : config.policy.fileName (config.policy.fileName entity) = config.policy.fileName entity := by
    rw [config.fileName_eq snake, config.fileName_eq snake, Casing.apply_snake .snake entity_ascii]
  have identifier : NamingPolicy.identifier (config.policy.fileName entity) =
      NamingPolicy.identifier entity := by
    rw [config.fileName_eq snake]
    exact Casing.apply_snake .upperCamel entity_ascii
  rw [Names.derive, Names.derive, dir, moduleVariable, file, identifier]

theorem NamingPolicy.Accepts.spelled (h : config.policy.Accepts module entity) :
    config.policy.Accepts (config.policy.moduleDir module) (config.policy.fileName entity) := by
  have module_word : IsWord (config.policy.moduleDir module) := by
    refine ⟨h.moduleDir_ne_nil, ?_⟩
    rw [config.moduleDir_eq snake]
    exact Casing.isNameLetter_apply .snake module
  have entity_word := (Names.isWord_of_checkEntity h.entity).2
  refine NamingPolicy.accepts_of_isPart module_word.isPart entity_word.isPart ?_ ?_
  · rw [Config.moduleDir_moduleDir snake module_ascii]
    exact h.moduleDir_ne_nil
  · rw [config.fileName_eq snake, ← Casing.apply_eq_nil_iff, Casing.apply_snake .snake entity_ascii,
      Casing.apply_eq_nil_iff]
    exact h.not_wordless

end Snake

namespace Call

/-- The call with another name. -/
def named (raw : Text) : Call → Call
  | generate config kind _ useClass => generate config kind raw useClass
  | destroy config kind _ => destroy config kind raw

@[simp] theorem config_named (raw : Text) (call : Call) : (call.named raw).config = call.config := by
  cases call <;> rfl

@[simp] theorem kind_named (raw : Text) (call : Call) : (call.named raw).kind = call.kind := by
  cases call <;> rfl

@[simp] theorem raw_named (raw : Text) (call : Call) : (call.named raw).raw = raw := by
  cases call <;> rfl

@[simp] theorem moduleJobs_named (raw dir : Text) (call : Call) :
    (call.named raw).moduleJobs dir = call.moduleJobs dir := by
  cases call <;> rfl

@[simp] theorem entityJobs_named (root : Path) (t : Tree) (names : Names) (raw : Text) (call : Call) :
    (call.named raw).entityJobs root t names = call.entityJobs root t names := by
  cases call <;> rfl

variable {call : Call} {module entity : Text}

theorem jobs?_entity (root : Path) (hkind : call.kind ≠ .module)
    (h : call.config.policy.Accepts module entity) (t : Tree) :
    (call.named (module ++ ':' :: entity)).jobs? root t =
      let path := modulePath call.config (call.config.policy.moduleDir module)
      if Project.exists? ⟨root, call.config⟩ t path then
        .ok (call.entityJobs root t (Names.derive call.config module entity))
      else .error (.moduleNotFound module path) := by
  have resolution :=
    @Project.entityResolution_qualified ⟨root, call.config⟩ _ _ _ t h.qualified h.not_refused
  rw [jobs?, if_neg (by simpa using hkind), config_named, raw_named, resolution]
  dsimp only
  split
  · simp [Except.map]
  · rfl

theorem jobs?_module (root : Path) (hkind : call.kind = .module)
    (h : ¬ call.config.RefusesModule module) (t : Tree) :
    (call.named module).jobs? root t =
      .ok (call.moduleJobs (call.config.policy.moduleDir module)) := by
  have resolution := @Project.moduleResolution_accepted ⟨root, call.config⟩ module h
  rw [jobs?, if_pos (by simpa using hkind), config_named, raw_named, resolution]
  simp [Except.map]

end Call

/-- The module directory and the file name spell the entity's name as well: they lead to the same
names, are accepted, and calls with them do the same, or nothing either for want of the module. -/
structure SpelledAlike (config : Config) (module entity : Text) : Prop where
  names : Names.derive config (config.policy.moduleDir module) (config.policy.fileName entity) =
    Names.derive config module entity
  accepted : config.policy.Accepts (config.policy.moduleDir module) (config.policy.fileName entity)
  entities : ∀ (root : Path) (call : Call) (s : Session),
    call.config = config → call.kind ≠ .module →
    let path := modulePath config (config.policy.moduleDir module)
    let given := call.named (module ++ ':' :: entity)
    let spelled := call.named
      (config.policy.moduleDir module ++ ':' :: config.policy.fileName entity)
    if Project.exists? ⟨root, config⟩ s.tree path then
      (∃ jobs, given.jobs? root s.tree = .ok jobs ∧ spelled.jobs? root s.tree = .ok jobs) ∧
        spelled.run root s = given.run root s
    else given.run root s = .error (.moduleNotFound module path) s ∧
      spelled.run root s = .error (.moduleNotFound (config.policy.moduleDir module) path) s
  modules : ∀ (root : Path) (call : Call) (s : Session),
    call.config = config → call.kind = .module →
    (∃ jobs, (call.named module).jobs? root s.tree = .ok jobs ∧
      (call.named (config.policy.moduleDir module)).jobs? root s.tree = .ok jobs) ∧
    (call.named (config.policy.moduleDir module)).run root s = (call.named module).run root s

/-- Under the snake-case policy an ASCII name is spelled by what it names. -/
theorem NamingPolicy.Accepts.spelledAlike {config : Config} {module entity : Text}
    (snake : config.snakeCaseFileNames) (module_ascii : ∀ c ∈ module, Letter.isAscii c)
    (entity_ascii : ∀ c ∈ entity, Letter.isAscii c) (accepts : config.policy.Accepts module entity) :
    SpelledAlike config module entity := by
  have names := Names.derive_spelled snake module_ascii entity_ascii
  have accepted := accepts.spelled snake module_ascii entity_ascii
  have dir := Config.moduleDir_moduleDir snake module_ascii
  refine ⟨names, accepted, ?_, ?_⟩
  · rintro root call s rfl hkind
    have given := Call.jobs?_entity root hkind accepts s.tree
    have spelled := Call.jobs?_entity root hkind accepted s.tree
    rw [dir, names] at spelled
    dsimp only at given spelled ⊢
    split
    · rename_i there
      rw [if_pos there] at given spelled
      refine ⟨⟨_, given, spelled⟩, ?_⟩
      rw [Call.run_eq, Call.run_eq, given, spelled, Call.config_named, Call.config_named]
    · rename_i missing
      rw [if_neg missing] at given spelled
      rw [Call.run_eq, Call.run_eq, given, spelled]
      exact ⟨rfl, rfl⟩
  · rintro root call s rfl hkind
    have given := Call.jobs?_module root hkind accepts.not_refusesModule s.tree
    have spelled := Call.jobs?_module root hkind accepted.not_refusesModule s.tree
    rw [dir] at spelled
    refine ⟨⟨_, given, spelled⟩, ?_⟩
    rw [Call.run_eq, Call.run_eq, given, spelled, Call.config_named, Call.config_named]

/-- Doubled separators, runs of capitals and digits on both sides of a capital. -/
theorem spelledAlike_serverName :
    SpelledAlike snakeConfig "HTTPServer2Go".toList "--v10Beta__commentLIST3d".toList ∧
      snakeConfig.policy.moduleDir "HTTPServer2Go".toList = "http_server2_go".toList ∧
      snakeConfig.policy.fileName "--v10Beta__commentLIST3d".toList =
        "v10_beta_comment_list3d".toList := by
  have accepts : snakeConfig.policy.Accepts "HTTPServer2Go".toList "--v10Beta__commentLIST3d".toList :=
    ⟨by decide +kernel, ⟨"http_server2_go".toList, by decide +kernel⟩, by decide +kernel⟩
  have module_ascii : "HTTPServer2Go".toList.all Letter.isAscii := by decide +kernel
  have entity_ascii : "--v10Beta__commentLIST3d".toList.all Letter.isAscii := by decide +kernel
  exact ⟨accepts.spelledAlike (by decide) (List.all_eq_true.1 module_ascii)
    (List.all_eq_true.1 entity_ascii), by decide +kernel, by decide +kernel⟩

end ComponentForge
