import Lakehouse.Yaml.Cursor
/-!
Folding: what stands between two words of a scalar over several lines. A single break is a space, of
several breaks the first one is dropped, and without a break all blanks stay.
-/
namespace Lakehouse.Yaml

-- A run of blanks and breaks: the blanks before the first break, and the breaks.
structure Gap where
  blanks : List Char
  breaks : List Char
  deriving Repr, Inhabited

namespace Gap

def ofRun (run : List Char) : Gap := ⟨run.takeWhile isBlank, run.filter isBreak⟩

def foldBreaks : List Char → List Char
  | ['\n'] => [' ']
  | '\n' :: rest => rest
  | breaks => breaks

def text (g : Gap) : List Char := if g.breaks.isEmpty then g.blanks else foldBreaks g.breaks

end Gap

-- The run of blanks and breaks at a place.
def Cursor.gap (c : Cursor) : List Char × Cursor := c.span fun x => isBlank x || isBreak x

end Lakehouse.Yaml
