import ComponentForge.CommandLine.Run
import ComponentForge.Proofs.CommandLine.Consent
import ComponentForge.Proofs.Tree.Creation

/-!
# Nothing is lost without consent

What a command may do to the files and directories that it finds depends on the command and on its
switch. A command that has no licence leaves all of them as they are, whatever else the arguments
say and whether it succeeds or fails, unless a yes at the console grants it; and at a console without a
terminal nobody says yes. Writing the default configuration is the only such command that touches the
tree; it only fills what did not exist.
-/

namespace ComponentForge

/-- The command, which was read from the arguments, may change or remove what is there. -/
inductive Licensed (args : List Text) : Command → Prop
  | generate {kind : EntityKind} {name : Text} {useClass : Bool} :
    Licensed args (.generate kind name useClass)
  | destroyEntity {kind : EntityKind} {name : Text} {consent : Bool} : kind ≠ .module →
    Licensed args (.destroy kind name consent)
  | destroyModule {name : Text} {consent : Bool} : Switch.yes.GivenIn args →
    Licensed args (.destroy .module name consent)
  | init {overwrite : Bool} : Switch.force.GivenIn args → Licensed args (.init overwrite)

namespace Console

variable {console : Console} {tree : Tree} {question declined : Text} {go : Outcome}

/-- Without a terminal no question is answered. -/
def AnswersAtTerminal (console : Console) : Prop :=
  ∀ question answer, console.confirm question = .ok answer → console.isTerminal = true

theorem AnswersAtTerminal.exists_error (answers : console.AnswersAtTerminal)
    (unattended : console.isTerminal = false) (question : Text) :
    ∃ cause, console.confirm question = .error cause := by
  cases asked : console.confirm question with
  | error cause => exact ⟨cause, rfl⟩
  | ok answer =>
    have attended := answers question answer asked
    rw [unattended] at attended
    cases attended

/-- Nothing happens to the tree without a yes. -/
theorem askFirst_tree (refuses : console.confirm question ≠ .ok true) :
    (console.askFirst tree question declined go).tree = tree := by
  rw [askFirst]
  cases asked : console.confirm question with
  | error cause => rfl
  | ok answer =>
    cases answer with
    | false => rfl
    | true => exact absurd asked refuses

theorem askFirst_of_error {cause : Text} (asked : console.confirm question = .error cause) :
    console.askFirst tree question declined go = .failed tree [] (.unconfirmed cause) := by
  rw [askFirst, asked]

end Console

namespace Invocation

variable {console : Console} {i : Invocation} {tree : Tree}

theorem up_notMem_configPath (hroot : .up ∉ i.root.steps) (hconfig : .up ∉ i.config.steps) :
    .up ∉ i.configPath.steps := by
  rw [configPath]
  cases absolute : i.config.isAbsolute with
  | true => rwa [Path.join, if_pos absolute]
  | false =>
    rw [Path.steps_join _ absolute, List.mem_append]
    exact not_or.2 ⟨hroot, hconfig⟩

/-- A configuration is written where there was none, or it is not written. -/
theorem runInit_survivesIn (refuses : ∀ question, console.confirm question ≠ .ok true)
    (closed : tree.Closed) (hup : .up ∉ i.configPath.steps) :
    tree.SurvivesIn (i.runInit console tree false).tree := by
  simp only [runInit, Bool.not_false, Bool.and_true]
  cases free : tree.reaches i.configPath with
  | true =>
    rw [if_pos rfl, Console.askFirst_tree (refuses _)]
    exact .refl tree
  | false =>
    have written :=
      @Access.survivesIn_write_of_not_reaches tree i.configPath Config.default.toYaml closed hup free
    rw [if_neg Bool.false_ne_true]
    cases hwrite :
        Access.write ((Path.ofString ".").join i.configPath) Config.default.toYaml tree with
    | ok a u => exact Access.after_of_ok hwrite ▸ written
    | error c u => exact Access.after_of_error hwrite ▸ written

theorem runDestroy_module_tree (refuses : ∀ question, console.confirm question ≠ .ok true)
    (name : Text) : (i.runDestroy console tree .module name false).tree = tree := by
  rw [runDestroy, withConfig]
  cases Config.load tree i.configPath with
  | error f => rfl
  | ok config => exact Console.askFirst_tree (refuses _)

/-- Where nobody answers it fails, be the configuration good or not. -/
theorem runDestroy_module (unanswered : ∀ question, ∃ cause, console.confirm question = .error cause)
    (name : Text) :
    ∃ complaint, i.runDestroy console tree .module name false = .failed tree [] complaint := by
  rw [runDestroy, withConfig]
  cases Config.load tree i.configPath with
  | error f => exact ⟨_, rfl⟩
  | ok config =>
    obtain ⟨cause, asked⟩ := unanswered _
    exact ⟨_, Console.askFirst_of_error asked⟩

end Invocation

section Arguments

variable {console : Console} {tree : Tree} {args : List Text}

theorem runArguments_invoke {i : Invocation} (h : Request.ofArguments args = .ok (.invoke i)) :
    runArguments console tree args = i.run console tree := by
  rw [runArguments, h]
  rfl

/-- A module is to be removed and the switch is not given. -/
theorem runArguments_destroyModule {i : Invocation} {name : Text} {consent : Bool}
    (h : Request.ofArguments args = .ok (.invoke i))
    (hc : i.command = .destroy .module name consent) (unasked : ¬ Switch.yes.GivenIn args) :
    runArguments console tree args = i.runDestroy console tree .module name false := by
  have refused : consent = false := by
    simpa [unasked] using Request.consent_iff h hc
  rw [runArguments_invoke h, Invocation.run, hc, refused]

theorem runArguments_init {i : Invocation} {overwrite : Bool}
    (refuses : ∀ question, console.confirm question ≠ .ok true) (closed : tree.Closed)
    (level : .up ∉ i.root.steps ∧ .up ∉ i.config.steps)
    (h : Request.ofArguments args = .ok (.invoke i)) (hc : i.command = .init overwrite)
    (unasked : ¬ Switch.force.GivenIn args) :
    tree.SurvivesIn (runArguments console tree args).tree := by
  have refused : overwrite = false := by
    simpa [unasked] using Request.overwrite_iff h hc
  rw [runArguments_invoke h, Invocation.run, hc, refused]
  exact Invocation.runInit_survivesIn refuses closed
    (Invocation.up_notMem_configPath level.1 level.2)

/-- At a console that never says yes all is kept without a licence. -/
theorem runArguments_unlicensed (refuses : ∀ question, console.confirm question ≠ .ok true)
    (closed : tree.Closed)
    (level : ∀ i, Request.ofArguments args = .ok (.invoke i) →
      .up ∉ i.root.steps ∧ .up ∉ i.config.steps)
    (unlicensed : ∀ i, Request.ofArguments args = .ok (.invoke i) → ¬ Licensed args i.command) :
    tree.SurvivesIn (runArguments console tree args).tree := by
  cases asked : Request.ofArguments args with
  | error refusal =>
    rw [runArguments, asked]
    exact .refl tree
  | ok request =>
    cases request with
    | help command =>
      rw [runArguments, asked]
      exact .refl tree
    | version =>
      rw [runArguments, asked]
      exact .refl tree
    | invoke i =>
      have forbidden := unlicensed i asked
      cases hc : i.command with
      | generate kind name useClass => exact absurd (hc ▸ .generate) forbidden
      | completions shell =>
        rw [runArguments_invoke asked, Invocation.run, hc]
        exact .refl tree
      | init overwrite =>
        exact runArguments_init refuses closed (level i asked) asked hc fun given =>
          forbidden (hc ▸ .init given)
      | destroy kind name consent =>
        by_cases hkind : kind = .module
        · subst hkind
          rw [runArguments_destroyModule asked hc fun given => forbidden (hc ▸ .destroyModule given),
            Invocation.runDestroy_module_tree refuses]
          exact .refl tree
        · exact absurd (hc ▸ .destroyEntity hkind) forbidden

end Arguments

/-- The link of the configuration leads nowhere, and past what is not there to a file. -/
def danglingTree : Tree :=
  ⟨[(["app".toList], .dir),
    (["app".toList, "kept.yaml".toList], .file (.text "version: 1\n".toList)),
    (["app".toList, ".bija.yaml".toList], .link "gone/../kept.yaml".toList)]⟩

def initArguments : List Text :=
  ["--root".toList, "app".toList, "init".toList]

/-- Behind the separator the switch is the name of the module. -/
def destroyArguments : List Text :=
  ["destroy".toList, "module".toList, "--".toList, "-y".toList]

/-- Input comes from a pipe, and the prompt says so. -/
def pipedConsole : Console where
  isTerminal := false
  confirm _ := .error "not a terminal".toList
  help _ := "Usage".toList
  completions _ := []
  refusal _ := "error".toList

end ComponentForge
