import ComponentForge.Config.Basic
import ComponentForge.Yaml.Printer

/-!
# Writing a configuration

A configuration is written with every key, in a fixed order; templates only if there are any.
-/

namespace ComponentForge

namespace CustomTemplate

def toRecord (t : CustomTemplate) : Yaml.Record :=
  [ ("name".toList, .string t.name), ("test".toList, .bool t.test), ("text".toList, .string t.text) ]

end CustomTemplate

namespace Config

def toOutline (config : Config) : Yaml.Outline :=
  [ ("tabSize".toList, .datum (.number config.tabSize)),
    ("storybook".toList, .datum (.bool config.storybook)),
    ("generateComponentTests".toList, .datum (.bool config.generateComponentTests)),
    ("generateContainerTests".toList, .datum (.bool config.generateContainerTests)),
    ("modulesPath".toList, .datum (.string config.modulesPath)),
    ("useIndexFile".toList, .datum (.bool config.useIndexFile)),
    ("snakeCaseFileNames".toList, .datum (.bool config.snakeCaseFileNames)) ] ++
  if config.templates.isEmpty then []
  else [("templates".toList, .records (config.templates.map CustomTemplate.toRecord))]

def toYaml (config : Config) : Text :=
  Yaml.print config.toOutline

end Config

end ComponentForge
