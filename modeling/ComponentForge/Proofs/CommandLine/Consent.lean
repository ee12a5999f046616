import ComponentForge.CommandLine.Reading
import ComponentForge.Proofs.Sequence

/-!
# Switches among the arguments

The switch of a command that was read is on exactly if one of its two spellings stands among the
arguments, and not behind a separator. Nothing else turns it on: an argument behind a separator is a
plain one, the value of an option never has a dash in front, and before the name of a command the
switches of commands are refused.
-/

namespace ComponentForge

namespace Switch

def yes : Switch :=
  ⟨'y', "yes".toList⟩

def force : Switch :=
  ⟨'f', "force".toList⟩

/-- The arguments that are the switch, if they are not plain. -/
def spellings (s : Switch) : List Text :=
  [['-', s.letter], "--".toList ++ s.name]

/-- The switch is one of the arguments before the first separator. -/
def GivenIn (s : Switch) (args : List Text) : Prop :=
  ∃ arg ∈ args.takeWhile (· != "--".toList), arg ∈ s.spellings

instance (s : Switch) (args : List Text) : Decidable (s.GivenIn args) :=
  inferInstanceAs (Decidable (∃ arg ∈ args.takeWhile (· != "--".toList), arg ∈ s.spellings))

theorem not_givenIn_nil (s : Switch) : ¬ s.GivenIn [] := by
  simp [GivenIn]

theorem not_givenIn_separator (s : Switch) (args : List Text) :
    ¬ s.GivenIn ("--".toList :: args) := by
  simp [GivenIn]

theorem givenIn_cons {s : Switch} {arg : Text} (h : arg ≠ "--".toList) (args : List Text) :
    s.GivenIn (arg :: args) ↔ arg ∈ s.spellings ∨ s.GivenIn args := by
  have goes_on : (arg != "--".toList) = true := by simpa using h
  simp only [GivenIn, List.takeWhile_cons, goes_on, if_true, List.mem_cons, exists_eq_or_imp]

end Switch

variable {command : CommandName} {s : Switch} {arg : Text}

/-- A spelling is read as the letter or as the name of the switch. -/
theorem Word.ofText_spelling (hs : command.switch? = some s) (h : arg ∈ s.spellings) :
    Word.ofText arg = .letters [s.letter] ∨ Word.ofText arg = .long s.name none := by
  rw [Switch.spellings, List.mem_cons, List.mem_singleton] at h
  rcases h with rfl | rfl
  · cases command <;> cases hs <;> exact Or.inl rfl
  · cases command <;> cases hs <;> exact Or.inr rfl

theorem Word.notMem_spellings (hs : command.switch? = some s)
    (hletter : Word.ofText arg ≠ .letters [s.letter])
    (hname : Word.ofText arg ≠ .long s.name none) : arg ∉ s.spellings := by
  intro spelled
  rcases Word.ofText_spelling hs spelled with word | word
  · exact hletter word
  · exact hname word

theorem Word.ofText_separator (h : Word.ofText arg = .separator) : arg = "--".toList := by
  unfold Word.ofText at h
  split at h
  · rfl
  · split at h <;> cases h
  · cases h
  · cases h

theorem Word.ne_separator (h : Word.ofText arg ≠ .separator) : arg ≠ "--".toList := by
  rintro rfl
  exact h rfl

theorem Word.ofText_letters {letters : Text} (h : Word.ofText arg = .letters letters) :
    arg = '-' :: letters ∧ letters ≠ [] := by
  unfold Word.ofText at h
  split at h
  · cases h
  · split at h <;> cases h
  · cases h
    exact ⟨rfl, by simp⟩
  · cases h

theorem Word.ofText_long {name : Text} (h : Word.ofText arg = .long name none) :
    arg = "--".toList ++ name := by
  unfold Word.ofText at h
  split at h
  · cases h
  · split at h <;> cases h
    rfl
  · cases h
  · cases h

theorem Given.fill_ok {g g' : Given} {slot : Slot} {value : Text}
    (h : g.fill slot value = .ok g') : g'.switch = g.switch := by
  cases slot with
  | root | config =>
    simp only [fill] at h
    split at h
    · cases h
    · split at h
      · cases h
      · cases h
        rfl
  | kind | shell =>
    simp only [fill] at h
    split at h
    · cases h
      rfl
    · cases h
  | name =>
    cases h
    rfl

namespace Item

theorem ofLong?_switch (hs : command.switch? = some s) :
    ofLong? (some command) s.name = some (.switch s) := by
  cases command <;> cases hs <;> rfl

/-- At the outer level the switches of the commands are unknown. -/
theorem ofLetter?_outer (hs : command.switch? = some s) : ofLetter? none s.letter = none := by
  cases command <;> cases hs <;> rfl

theorem ofLong?_outer (hs : command.switch? = some s) : ofLong? none s.name = none := by
  cases command <;> cases hs <;> rfl

theorem ofLetter?_some {letter : Char} {item : Item} (hs : command.switch? = some s)
    (h : ofLetter? (some command) letter = some item) :
    item = .help ∨ item = .switch s ∧ letter = s.letter := by
  simp only [ofLetter?, reduceCtorEq, and_false, if_false, Option.bind_some, hs] at h
  split at h
  · exact Or.inl (Option.some.inj h).symm
  · split at h
    · rename_i same
      exact Or.inr ⟨(Option.some.inj h).symm, same.symm⟩
    · cases h

theorem ofLong?_some {name : Text} {item : Item} (hs : command.switch? = some s)
    (h : ofLong? (some command) name = some item) :
    (∃ slot, item = .valued slot) ∨ item = .help ∨ item = .switch s ∧ name = s.name := by
  simp only [ofLong?, reduceCtorEq, and_false, if_false, Option.bind_some, hs] at h
  split at h
  · exact Or.inl ⟨.root, (Option.some.inj h).symm⟩
  · split at h
    · exact Or.inl ⟨.config, (Option.some.inj h).symm⟩
    · split at h
      · exact Or.inr (Or.inl (Option.some.inj h).symm)
      · split at h
        · rename_i same
          exact Or.inr (Or.inr ⟨(Option.some.inj h).symm, same.symm⟩)
        · cases h

end Item

namespace Reading

variable {level : Option CommandName} {r r' : Reading}

/-- The second reading is the first one with other values, and its switch is where it was. -/
structure Fills (r r' : Reading) : Prop where
  switch : r'.given.switch = r.given.switch
  isPlain : r'.isPlain = r.isPlain

theorem settle_ok (h : r.settle = .ok r') : r.Fills r' ∧ r'.slots = r.slots := by
  rw [settle] at h
  split at h
  · cases h
    exact ⟨⟨rfl, rfl⟩, rfl⟩
  · cases h
  · obtain ⟨g, filled, h⟩ := except_bind_eq_ok_iff.1 h
    cases h
    exact ⟨⟨Given.fill_ok filled, rfl⟩, rfl⟩

/-- A value that comes with its option fills a slot at once. -/
theorem fill_settled {slot : Slot} {value : Text} (h : (do
      let r ← r.settle
      return { r with given := ← r.given.fill slot value } : Except Stop Reading) = .ok r') :
    r.Fills r' ∧ r'.slots = r.slots := by
  obtain ⟨m, settled, h⟩ := except_bind_eq_ok_iff.1 h
  obtain ⟨g, filled, h⟩ := except_bind_eq_ok_iff.1 h
  cases h
  obtain ⟨fills, slots⟩ := settle_ok settled
  exact ⟨⟨(Given.fill_ok filled).trans fills.switch, fills.isPlain⟩, slots⟩

theorem takePlain_ok (h : r.takePlain arg = .ok r') : r.Fills r' ∧ r.slots ≠ [] := by
  obtain ⟨m, settled, h⟩ := except_bind_eq_ok_iff.1 h
  obtain ⟨fills, slots⟩ := settle_ok settled
  rw [← slots]
  split at h
  · cases h
  · rename_i slot slots' more
    cases h
    exact ⟨⟨fills.switch, fills.isPlain⟩, by simp [more]⟩

theorem takeItem_valued {slot : Slot} (h : r.takeItem level (.valued slot) = .ok r') :
    r.Fills r' ∧ r'.slots = r.slots := by
  obtain ⟨m, settled, h⟩ := except_bind_eq_ok_iff.1 h
  obtain ⟨fills, slots⟩ := settle_ok settled
  cases h
  exact ⟨⟨fills.switch, fills.isPlain⟩, slots⟩

theorem takeItem_switch (h : r.takeItem level (.switch s) = .ok r') :
    r.given.switch = false ∧ r'.given.switch = true ∧ r'.isPlain = r.isPlain := by
  obtain ⟨m, settled, h⟩ := except_bind_eq_ok_iff.1 h
  obtain ⟨fills, -⟩ := settle_ok settled
  split at h
  · cases h
  · rename_i off
    cases h
    exact ⟨by simpa [fills.switch] using off, rfl, fills.isPlain⟩

theorem takeItem_help : r.takeItem level .help ≠ .ok r' := by
  intro h
  obtain ⟨m, -, h⟩ := except_bind_eq_ok_iff.1 h
  cases h

/-- Of the letters that a command is given at once, only its switch by itself is no end. -/
theorem takeLetters_ok {letter : Char} {more : Text} (hs : command.switch? = some s)
    (h : r.takeLetters (some command) (letter :: more) = .ok r') :
    letter = s.letter ∧ more = [] ∧ r'.given.switch = true ∧ r'.isPlain = r.isPlain := by
  have first : ∀ (r r' : Reading) (letter : Char) (more : Text),
      r.takeLetters (some command) (letter :: more) = .ok r' →
      letter = s.letter ∧ ∃ m, r.takeItem (some command) (.switch s) = .ok m ∧
        m.takeLetters (some command) more = .ok r' := by
    intro r r' letter more h
    rw [takeLetters] at h
    split at h
    · cases h
    · rename_i item hitem
      obtain ⟨m, taken, later⟩ := except_bind_eq_ok_iff.1 h
      rcases Item.ofLetter?_some hs hitem with rfl | ⟨rfl, same⟩
      · exact absurd taken takeItem_help
      · exact ⟨same, m, taken, later⟩
  obtain ⟨same, m, taken, h⟩ := first r r' letter more h
  obtain ⟨-, on, isPlain⟩ := takeItem_switch taken
  cases more with
  | nil =>
    cases h
    exact ⟨same, rfl, on, isPlain⟩
  | cons letter' more =>
    -- a second letter would be the same switch again
    obtain ⟨-, m', again, -⟩ := first m r' letter' more h
    have again_off := (takeItem_switch again).1
    simp [on] at again_off

/-- What an argument does to the reading of a command that has the switch `s`. -/
inductive Takes (s : Switch) (r : Reading) (arg : Text) (r' : Reading) : Prop
  | separator : arg = "--".toList → r'.given.switch = r.given.switch → r'.isPlain →
    Takes s r arg r'
  | switch : arg ≠ "--".toList → arg ∈ s.spellings → r'.given.switch = true →
    r'.isPlain = r.isPlain → Takes s r arg r'
  | other : arg ≠ "--".toList → arg ∉ s.spellings → r.Fills r' → Takes s r arg r'

theorem take_plain (h : r.take level arg = .ok r') (plain : r.isPlain) :
    r.Fills r' ∧ r.slots ≠ [] := by
  rw [take, if_pos plain] at h
  exact takePlain_ok h

theorem take_ok (hs : command.switch? = some s) (h : r.take (some command) arg = .ok r')
    (plain : r.isPlain = false) : Takes s r arg r' := by
  rw [take, if_neg (by simp [plain])] at h
  cases hword : Word.ofText arg with
  | separator =>
    simp only [hword] at h
    cases h
    exact .separator (Word.ofText_separator hword) rfl rfl
  | long name value =>
    have hne : arg ≠ "--".toList := Word.ne_separator (by simp [hword])
    simp only [hword] at h
    cases value with
    | none =>
      simp only at h
      split at h
      · rename_i item hitem
        rcases Item.ofLong?_some hs hitem with ⟨slot, rfl⟩ | rfl | ⟨rfl, rfl⟩
        · have other_name : name ≠ s.name := by
            rintro rfl
            simp [Item.ofLong?_switch hs] at hitem
          have unspelled : arg ∉ s.spellings :=
            Word.notMem_spellings hs (by simp [hword]) (by simp [hword, other_name])
          exact .other hne unspelled (takeItem_valued h).1
        · exact absurd h takeItem_help
        · obtain ⟨-, on, isPlain⟩ := takeItem_switch h
          exact .switch hne (by simp [Switch.spellings, Word.ofText_long hword]) on isPlain
      · cases h
    | some value =>
      simp only at h
      split at h
      · obtain ⟨fills, -⟩ := fill_settled h
        exact .other hne (Word.notMem_spellings hs (by simp [hword]) (by simp [hword])) fills
      · cases h
  | letters letters =>
    simp only [hword] at h
    obtain ⟨spelled, hne⟩ := Word.ofText_letters hword
    obtain ⟨letter, more, rfl⟩ := List.exists_cons_of_ne_nil hne
    obtain ⟨rfl, rfl, on, isPlain⟩ := takeLetters_ok hs h
    have mem : arg ∈ s.spellings := by simp [Switch.spellings, spelled]
    exact .switch (Word.ne_separator (by simp [hword])) mem on isPlain
  | plain =>
    simp only [hword] at h
    have unspelled : arg ∉ s.spellings :=
      Word.notMem_spellings hs (by simp [hword]) (by simp [hword])
    refine .other (Word.ne_separator (by simp [hword])) unspelled ?_
    split at h
    · cases h
      exact ⟨rfl, rfl⟩
    · exact (takePlain_ok h).1

theorem fold_plain {args : List Text} (h : args.foldlM (take level) r = .ok r') (plain : r.isPlain) :
    r.Fills r' := by
  induction args generalizing r with
  | nil =>
    cases h
    exact ⟨rfl, rfl⟩
  | cons arg rest ih =>
    rw [List.foldlM_cons] at h
    obtain ⟨m, taken, later⟩ := except_bind_eq_ok_iff.1 h
    obtain ⟨first, -⟩ := take_plain taken plain
    have others := ih later (first.isPlain.trans plain)
    exact ⟨others.switch.trans first.switch, others.isPlain.trans first.isPlain⟩

/-- The switch is on in the end if it was on, or is among the arguments. -/
theorem fold_switch_iff {args : List Text} (hs : command.switch? = some s)
    (h : args.foldlM (take (some command)) r = .ok r') (plain : r.isPlain = false) :
    r'.given.switch = true ↔ r.given.switch = true ∨ s.GivenIn args := by
  induction args generalizing r with
  | nil =>
    cases h
    simp [s.not_givenIn_nil]
  | cons arg rest ih =>
    rw [List.foldlM_cons] at h
    obtain ⟨m, taken, later⟩ := except_bind_eq_ok_iff.1 h
    cases take_ok hs taken plain with
    | separator spelled same nowPlain =>
      subst spelled
      rw [(fold_plain later nowPlain).switch, same]
      exact (or_iff_left (s.not_givenIn_separator rest)).symm
    | switch hne spelled on isPlain =>
      rw [ih later (isPlain.trans plain), Switch.givenIn_cons hne]
      simp [on, spelled]
    | other hne notSpelled fills =>
      rw [ih later (fills.isPlain.trans plain), Switch.givenIn_cons hne, fills.switch]
      simp [notSpelled]

end Reading

theorem CommandName.read_switch_iff {args : List Text} {g : Given} (hs : command.switch? = some s)
    (h : command.read args = .ok g) : g.switch = true ↔ s.GivenIn args := by
  obtain ⟨r, folded, h⟩ := except_bind_eq_ok_iff.1 h
  obtain ⟨r', settled, h⟩ := except_bind_eq_ok_iff.1 h
  cases h
  rw [(Reading.settle_ok settled).1.switch, Reading.fold_switch_iff hs folded rfl]
  simp [Reading.start, Given.empty]

namespace Reading

variable {r r' : Reading}

/-- Outside a command no argument is the switch of one. -/
theorem take_outer_spelling (hs : command.switch? = some s) (hspelled : arg ∈ s.spellings)
    (plain : r.isPlain = false) : r.take none arg ≠ .ok r' := by
  intro h
  rw [take, if_neg (by simp [plain])] at h
  rcases Word.ofText_spelling hs hspelled with word | word
  · simp [word, takeLetters, Item.ofLetter?_outer hs] at h
  · simp [word, Item.ofLong?_outer hs] at h

theorem takeItem_version {level : Option CommandName} : r.takeItem level .version ≠ .ok r' := by
  intro h
  obtain ⟨m, -, h⟩ := except_bind_eq_ok_iff.1 h
  cases h

/-- Outside a command letters only ask for help or for the version. -/
theorem takeLetters_outer {letter : Char} {more : Text} :
    r.takeLetters none (letter :: more) ≠ .ok r' := by
  intro h
  rw [takeLetters] at h
  split at h
  · cases h
  · rename_i item hitem
    obtain ⟨m, taken, -⟩ := except_bind_eq_ok_iff.1 h
    rw [Item.ofLetter?] at hitem
    split at hitem
    · cases hitem
      exact takeItem_help taken
    · split at hitem
      · cases hitem
        exact takeItem_version taken
      · cases hitem

theorem takeItem_long_outer {name : Text} {item : Item} (hitem : Item.ofLong? none name = some item)
    (h : r.takeItem none item = .ok r') : r.Fills r' ∧ r'.slots = r.slots := by
  cases item with
  | valued slot => exact takeItem_valued h
  | help => exact absurd h takeItem_help
  | version => exact absurd h takeItem_version
  | switch s =>
    simp only [Item.ofLong?, Option.bind_none] at hitem
    repeat (split at hitem; · cases hitem)
    cases hitem

/-- Outside a command no plain argument is taken but as the value of an option. -/
structure Outer (r : Reading) : Prop where
  slots : r.slots = []
  isPlain : r.isPlain = false

theorem Outer.take (outer : r.Outer) (h : r.take none arg = .ok r') :
    (arg = "--".toList ∧ r'.slots = [] ∧ r'.isPlain) ∨ (arg ≠ "--".toList ∧ r'.Outer) := by
  have kept : r.Fills r' ∧ r'.slots = r.slots → r'.Outer :=
    fun ⟨fills, slots⟩ => ⟨slots.trans outer.slots, fills.isPlain.trans outer.isPlain⟩
  rw [Reading.take, if_neg (by simp [outer.isPlain])] at h
  cases hword : Word.ofText arg with
  | separator =>
    simp only [hword] at h
    cases h
    exact Or.inl ⟨Word.ofText_separator hword, outer.slots, rfl⟩
  | long name value =>
    refine Or.inr ⟨Word.ne_separator (by simp [hword]), ?_⟩
    simp only [hword] at h
    cases value with
    | none =>
      simp only at h
      split at h
      · rename_i item hitem
        exact kept (takeItem_long_outer hitem h)
      · cases h
    | some value =>
      simp only at h
      split at h
      · exact kept (fill_settled h)
      · cases h
  | letters letters =>
    simp only [hword] at h
    obtain ⟨letter, more, rfl⟩ := List.exists_cons_of_ne_nil (Word.ofText_letters hword).2
    exact absurd h takeLetters_outer
  | plain =>
    refine Or.inr ⟨Word.ne_separator (by simp [hword]), ?_⟩
    simp only [hword] at h
    split at h
    · cases h
      exact kept ⟨⟨rfl, rfl⟩, rfl⟩
    · exact absurd outer.slots (takePlain_ok h).2

end Reading

/-- The word that names a command is neither the separator nor a switch. -/
theorem CommandName.ofText?_dash (more : Text) : CommandName.ofText? ('-' :: more) = none := by
  rfl

theorem Switch.exists_dash (h : arg ∈ s.spellings) : ∃ more, arg = '-' :: more := by
  rw [spellings, List.mem_cons, List.mem_singleton] at h
  rcases h with rfl | rfl
  · exact ⟨_, rfl⟩
  · exact ⟨_, rfl⟩

namespace Invocation

variable {r : Reading} {args : List Text} {i : Invocation}

/-- Behind a separator no command can be named. -/
theorem readFrom_plain (slots : r.slots = []) (plain : r.isPlain) : readFrom r args ≠ .ok i := by
  intro h
  cases args with
  | nil => cases h
  | cons arg rest =>
    rw [readFrom, if_pos (by simp [plain])] at h
    obtain ⟨m, taken, -⟩ := except_bind_eq_ok_iff.1 h
    exact (Reading.take_plain taken plain).2 slots

/-- A command has been read from the arguments behind its name, and its switch is given in all the
arguments exactly if it is given in these. -/
theorem readFrom_ok (outer : r.Outer) (h : readFrom r args = .ok i) :
    ∃ name given inner rest, ofGiven name given inner = .ok i ∧ name.read rest = .ok inner ∧
      ∀ s, name.switch? = some s → (s.GivenIn args ↔ s.GivenIn rest) := by
  induction args generalizing r with
  | nil => cases h
  | cons arg rest ih =>
    -- an argument that names no command, be it the value of an option, leads to the next one
    have next : (do readFrom (← r.take none arg) rest) = .ok i →
        ∃ name given inner more,
          ofGiven name given inner = .ok i ∧ name.read more = .ok inner ∧
          ∀ s, name.switch? = some s → (s.GivenIn (arg :: rest) ↔ s.GivenIn more) := by
      intro h
      obtain ⟨m, taken, later⟩ := except_bind_eq_ok_iff.1 h
      rcases outer.take taken with ⟨-, slots, plain⟩ | ⟨hne, outer'⟩
      · exact absurd later (readFrom_plain slots plain)
      · obtain ⟨name, given, inner, more, made, read, same⟩ := ih outer' later
        refine ⟨name, given, inner, more, made, read, fun s hs => ?_⟩
        rw [Switch.givenIn_cons hne, same s hs]
        have unspelled : arg ∉ s.spellings :=
          fun spelled => Reading.take_outer_spelling hs spelled outer.isPlain taken
        simp [unspelled]
    rw [readFrom] at h
    split at h
    · exact next h
    · split at h
      · cases h
      · split at h
        · exact next h
        · rename_i name named
          obtain ⟨inner, read, later⟩ := except_bind_eq_ok_iff.1 h
          obtain ⟨m, -, made⟩ := except_bind_eq_ok_iff.1 later
          refine ⟨name, m.given, inner, rest, made, read, fun s hs => ?_⟩
          have dashless : ∀ more, arg ≠ '-' :: more := by
            rintro more rfl
            simp [CommandName.ofText?_dash] at named
          rw [Switch.givenIn_cons (dashless _)]
          have unspelled : arg ∉ s.spellings := by
            intro spelled
            obtain ⟨more, dash⟩ := Switch.exists_dash spelled
            exact dashless more dash
          simp [unspelled]

end Invocation

namespace Command

/-- The word that names the command. -/
def word : Command → CommandName
  | .generate _ _ _ => .generate
  | .destroy _ _ _ => .destroy
  | .init _ => .init
  | .completions _ => .completions

/-- The switch of the command is on. -/
def isSwitched : Command → Bool
  | .generate _ _ useClass => useClass
  | .destroy _ _ consent => consent
  | .init overwrite => overwrite
  | .completions _ => false

end Command

theorem Given.command_ok {g : Given} {name : CommandName} {c : Command}
    (h : g.command name = .ok c) :
    c.word = name ∧ (name ≠ .completions → c.isSwitched = g.switch) := by
  cases name with
  | generate | destroy =>
    obtain ⟨kind, -, h⟩ := except_bind_eq_ok_iff.1 h
    obtain ⟨entity, -, h⟩ := except_bind_eq_ok_iff.1 h
    cases h
    exact ⟨rfl, fun _ => rfl⟩
  | init =>
    cases h
    exact ⟨rfl, fun _ => rfl⟩
  | completions =>
    obtain ⟨shell, -, h⟩ := except_bind_eq_ok_iff.1 h
    cases h
    exact ⟨rfl, fun h => absurd rfl h⟩

namespace Request

variable {args : List Text} {i : Invocation}

/-- The switch of a command that was read is on exactly if the arguments give it. -/
theorem isSwitched_iff (h : ofArguments args = .ok (.invoke i))
    (hs : i.command.word.switch? = some s) : i.command.isSwitched = true ↔ s.GivenIn args := by
  rw [ofArguments] at h
  cases hread : Invocation.readFrom (.start []) args with
  | error stop => cases stop <;> simp [hread] at h
  | ok j =>
    simp only [hread] at h
    obtain rfl : j = i := by simpa using h
    obtain ⟨name, given, inner, rest, made, read, same⟩ :=
      Invocation.readFrom_ok ⟨rfl, rfl⟩ hread
    obtain ⟨command, commanded, done⟩ := except_bind_eq_ok_iff.1 made
    cases done
    obtain ⟨rfl, switched⟩ := Given.command_ok commanded
    have takes_one : command.word ≠ .completions := by
      intro silent
      rw [silent] at hs
      cases hs
    rw [switched takes_one, CommandName.read_switch_iff hs read, same s hs]

/-- Consent is what `-y` or `--yes` among the arguments gives. -/
theorem consent_iff {kind : EntityKind} {name : Text} {consent : Bool}
    (h : ofArguments args = .ok (.invoke i)) (hc : i.command = .destroy kind name consent) :
    consent = true ↔ Switch.yes.GivenIn args := by
  have on := @isSwitched_iff .yes args i h (by rw [hc]; rfl)
  rwa [hc] at on

theorem overwrite_iff {overwrite : Bool} (h : ofArguments args = .ok (.invoke i))
    (hc : i.command = .init overwrite) : overwrite = true ↔ Switch.force.GivenIn args := by
  have on := @isSwitched_iff .force args i h (by rw [hc]; rfl)
  rwa [hc] at on

end Request

end ComponentForge
