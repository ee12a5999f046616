import ComponentForge.Config.Basic
import ComponentForge.EntityKind

/-!
# Built-in templates

The templates that are used where none is configured. They indent by two spaces and see the
variables for the module, the component and the container.
-/

namespace ComponentForge

/-- Which file of an entity a template is for. -/
inductive TemplateFlavor where
  | entity (useClass : Bool)
  | test
deriving DecidableEq, Repr

namespace TemplateFlavor

def isTest : TemplateFlavor → Bool
  | entity _ => false
  | test => true

end TemplateFlavor

namespace Template

def ofLines (lines : List String) : Text :=
  lines.flatMap fun line => line.toList ++ ['\n']

def component : Text :=
  ofLines
    [ "import React from 'react';",
      "",
      "const <%= componentName %> = () => (",
      "  <div>",
      "    <%= componentName %>",
      "  </div>",
      ");",
      "",
      "export default <%= componentName %>;" ]

def componentClass : Text :=
  ofLines
    [ "import React from 'react';",
      "",
      "class <%= componentName %> extends React.Component \x7b",
      "  constructor(props) \x7b",
      "    super(props);",
      "  \x7d",
      "",
      "  render() \x7b",
      "    return (",
      "      <div>",
      "        <%= componentName %>",
      "      </div>",
      "    );",
      "  \x7d",
      "\x7d",
      "",
      "export default <%= componentName %>;" ]

def container : Text :=
  ofLines
    [ "import React from 'react';",
      "import <%= componentName %> from '../components/<%= componentFileName %>';",
      "",
      "const <%= containerName %> = (props) => (",
      "  <<%= componentName %> \x7b...props\x7d />",
      ");",
      "",
      "export default <%= containerName %>;" ]

def storybook : Text :=
  ofLines
    [ "import React from 'react';",
      "import \x7bstoriesOf\x7d from '@storybook/react';",
      "import \x7baction\x7d from '@storybook/addon-actions';",
      "import <%= componentName %> from '../<%= componentFileName %>';",
      "",
      "storiesOf('<%= moduleName %>', module)",
      "  .add('default', () => (",
      "    <<%= componentName %> />",
      "  ));" ]

def componentTest : Text :=
  ofLines
    [ "const \x7bdescribe, it\x7d = global;",
      "import \x7bexpect\x7d from 'chai';",
      "import \x7bshallow\x7d from 'enzyme';",
      "import <%= componentName %> from '../<%= componentFileName %>';",
      "",
      "describe('<%= moduleName %>.components.<%= componentFileName %>', () => \x7b",
      "  it('should do something');",
      "\x7d);" ]

def containerTest : Text :=
  ofLines
    [ "const \x7bdescribe, it\x7d = global;",
      "import \x7bexpect\x7d from 'chai';",
      "import \x7bshallow\x7d from 'enzyme';",
      "import <%= containerName %> from '../<%= containerFileName %>';",
      "",
      "describe('<%= moduleName %>.containers.<%= containerFileName %>', () => \x7b",
      "  it('should do something');",
      "\x7d);" ]

def builtin? : EntityKind → TemplateFlavor → Option Text
  | .component, .entity false => some component
  | .component, .entity true => some componentClass
  | .component, .test => some componentTest
  | .container, .entity _ => some container
  | .container, .test => some containerTest
  | .storybook, .entity _ => some storybook
  | .storybook, .test => none
  | .module, _ => none

/-- A configured template wins over the built-in one. -/
def choose? (config : Config) (kind : EntityKind) (flavor : TemplateFlavor) : Option Text :=
  match config.customTemplate? kind.name flavor.isTest with
  | some custom => some custom.text
  | none => builtin? kind flavor

end Template

end ComponentForge
