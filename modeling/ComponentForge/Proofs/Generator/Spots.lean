import ComponentForge.Proofs.Generator.Names
import ComponentForge.Proofs.Layout
import ComponentForge.Proofs.Tree.Removal

/-!
# The files of an entity

Generating and destroying one entity touches at most seven files of a module. None of them lies on the
way to another one, so that each access changes one of them and makes no directory in the place of
another.
-/

namespace ComponentForge

open Layout ComponentForge.Tree

/-- A file that generating or destroying an entity may touch. -/
inductive Spot where
  | component
  | componentTest
  | container
  | containerTest
  | story
  /-- The index file of the module. -/
  | index
  /-- The index file of the stories of the module. -/
  | stories
deriving DecidableEq

namespace Spot

def path (config : Config) (names : Names) : Spot → Path
  | component => outputPath config .component names.componentFile names.moduleDir
  | componentTest => testPath config .component names.componentFile names.moduleDir
  | container => outputPath config .container names.componentFile names.moduleDir
  | containerTest => testPath config .container names.componentFile names.moduleDir
  | story => outputPath config .storybook names.componentFile names.moduleDir
  | index => indexPath config names.moduleDir
  | stories => storiesIndexPath config names.moduleDir

/-- The directories between the module and the file. -/
def directories : Spot → List Text
  | component => ["components".toList]
  | componentTest => ["components".toList, "tests".toList]
  | container => ["containers".toList]
  | containerTest => ["containers".toList, "tests".toList]
  | story => ["components".toList, "stories".toList]
  | index => []
  | stories => ["components".toList, "stories".toList]

def file (config : Config) (names : Names) : Spot → Text
  | component => fileName (stem config .component names.componentFile)
  | componentTest => fileName names.componentFile
  | container => fileName (stem config .container names.componentFile)
  | containerTest => fileName names.componentFile
  | story => fileName (stem config .storybook names.componentFile)
  | index => "index.js".toList
  | stories => "index.js".toList

/-- The names that lead from the module to the file. -/
def tail (config : Config) (names : Names) (spot : Spot) : List Text :=
  spot.directories ++ [spot.file config names]

variable {config : Config} {names : Names} {spot other : Spot}

theorem dot_mem_file (config : Config) (names : Names) (spot : Spot) :
    '.' ∈ spot.file config names := by
  have named : ∀ stem, '.' ∈ fileName stem := fun stem =>
    List.mem_append_right stem List.mem_cons_self
  have literal : '.' ∈ "index.js".toList := by decide
  cases spot with
  | index => exact literal
  | stories => exact literal
  | _ => exact named _

theorem dot_notMem_directories (spot : Spot) : ∀ n ∈ spot.directories, '.' ∉ n := by
  cases spot <;> decide

theorem directories_inj : spot.directories = other.directories →
    spot = other ∨ spot = story ∧ other = stories ∨ spot = stories ∧ other = story := by
  cases spot <;> cases other <;> decide

theorem tail_inj (h : spot.tail config names = other.tail config names) : spot = other := by
  obtain ⟨same, files⟩ := List.append_inj' h rfl
  have file_eq : spot.file config names = other.file config names := by simpa using files
  have story_ne := fileName_stories_ne config names.componentFile
  rcases directories_inj same with same | ⟨rfl, rfl⟩ | ⟨rfl, rfl⟩
  · exact same
  · exact absurd file_eq story_ne
  · exact absurd file_eq.symm story_ne

/-- No file lies on the way to another one. -/
theorem not_prefix_directories : ¬ spot.tail config names <+: other.directories := by
  intro h
  have inside : spot.file config names ∈ other.directories := h.subset (by simp [tail])
  exact dot_notMem_directories other _ inside (dot_mem_file config names spot)

theorem descends (inside : Inside config.modulesPath) (hm : IsName names.moduleDir)
    (worded : names.Worded) (spot : Spot) : (spot.path config names).Descends
      (modulesRoute config.modulesPath ++ names.moduleDir :: spot.tail config names) := by
  have hentity := worded.componentFile
  cases spot with
  | component =>
    have kind : EntityKind.component ≠ .module := by decide
    exact descends_outputPath inside hm kind hentity
  | componentTest =>
    have kind : EntityKind.component ≠ .module := by decide
    exact descends_testPath inside hm kind hentity
  | container =>
    have kind : EntityKind.container ≠ .module := by decide
    exact descends_outputPath inside hm kind hentity
  | containerTest =>
    have kind : EntityKind.container ≠ .module := by decide
    exact descends_testPath inside hm kind hentity
  | story =>
    have kind : EntityKind.storybook ≠ .module := by decide
    exact descends_outputPath inside hm kind hentity
  | index => exact descends_indexPath inside hm
  | stories => exact descends_storiesIndexPath inside hm

end Spot

/-- An entity with its names, the tree before it is generated, and the root of the project there. -/
structure Plot where
  start : Tree
  root : Path
  base : Route
  config : Config
  names : Names
  kind : EntityKind

namespace Plot

/-- The names that lead from the root to a file of the entity. -/
def down (plot : Plot) (spot : Spot) : List Text :=
  modulesRoute plot.config.modulesPath ++ plot.names.moduleDir :: spot.tail plot.config plot.names

/-- The route of a file of the entity. -/
def route (plot : Plot) (spot : Spot) : Route :=
  plot.base ++ plot.down spot

def path (plot : Plot) (spot : Spot) : Path :=
  spot.path plot.config plot.names

variable {plot : Plot} {spot other : Spot} {t u v : Tree} {text : Text}

theorem dropLast_down (plot : Plot) (spot : Spot) : (plot.down spot).dropLast =
    modulesRoute plot.config.modulesPath ++ plot.names.moduleDir :: spot.directories := by
  have split : plot.down spot = (modulesRoute plot.config.modulesPath ++
      plot.names.moduleDir :: spot.directories) ++ [spot.file plot.config plot.names] := by
    simp [down, Spot.tail]
  rw [split, List.dropLast_concat]

theorem route_inj (h : plot.route spot = plot.route other) : spot = other := by
  have tails := List.append_cancel_left (List.append_cancel_left h)
  exact Spot.tail_inj (List.cons.inj tails).2

theorem route_ne_nil (plot : Plot) (spot : Spot) : plot.route spot ≠ [] := by
  simp [route, down]

/-- A directory on the way to a file is not one of the files. -/
theorem route_ne_of_above {p : List Text} (hp : p <+: (plot.down spot).dropLast) (other : Spot) :
    plot.base ++ p ≠ plot.route other := by
  intro same
  obtain rfl := List.append_cancel_left same
  rw [dropLast_down, down, List.prefix_append_right_inj] at hp
  exact Spot.not_prefix_directories (List.cons_prefix_cons.1 hp).2

/-- Of the files of the entity only this one changes, and elsewhere there are only new directories. -/
structure Touches (plot : Plot) (spot : Spot) (t u : Tree) : Prop where
  same : ∀ other, other ≠ spot → u.get? (plot.route other) = t.get? (plot.route other)
  rest : ∀ s, (∀ other, s ≠ plot.route other) →
    u.get? s = t.get? s ∨ t.get? s = none ∧ u.get? s = some .dir

theorem touches_of_filled (filled : Filled plot.base (plot.down spot) text t u) :
    plot.Touches spot t u where
  same other hother := by
    rcases filled.others (plot.route other) (fun same => hother (route_inj same)) with
      same | ⟨⟨p, -, hp, same⟩, -⟩
    · exact same
    · exact absurd same.symm (route_ne_of_above hp other)
  rest s hs := by
    rcases filled.others s (hs spot) with same | ⟨-, gone, dir⟩
    · exact Or.inl same
    · exact Or.inr ⟨gone, dir⟩

theorem touches_of_eq (h : ∀ s, s ≠ plot.route spot → u.get? s = t.get? s) :
    plot.Touches spot t u where
  same _ hother := h _ fun same => hother (route_inj same)
  rest s hs := Or.inl (h s (hs spot))

end Plot

end ComponentForge
