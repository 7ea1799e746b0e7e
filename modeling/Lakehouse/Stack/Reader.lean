import Lakehouse.Stack
import Lakehouse.Yaml.Reader

namespace Lakehouse

-- The stack of a text, if the text is a single document that describes one.
def Stack.read? (text : String) : Option Stack := do Stack.codec.read (← Yaml.read? text)

end Lakehouse
