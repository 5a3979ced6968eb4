/-!
Styled texts for terminals, and the icons that lines begin with.
-/

namespace StepFlow.Text

/-- How a text stands out. -/
inductive Style where
  | bold
  | dim
  | red
  | green
  | yellow
  | cyan
  deriving DecidableEq, Repr

namespace Style

/-- The number of the style in an escape sequence. -/
def code : Style → String
  | bold => "1"
  | dim => "2"
  | red => "31"
  | green => "32"
  | yellow => "33"
  | cyan => "36"

/-- A text in a style, or the bare text where there are no colours. -/
def paint (colors : Bool) (style : Style) (text : String) : String :=
  if colors then "\x1b[" ++ style.code ++ "m" ++ text ++ "\x1b[0m" else text

end Style

/-! ### Icons -/

/-- Something went well. -/
def checkIcon : String := "✅ "

/-- Something went wrong. -/
def crossIcon : String := "❌ "

/-- Something goes on. -/
def busyIcon : String := "⏳ "

/-- Something is worth knowing. -/
def infoIcon : String := "ℹ️  "

/-- Something may go wrong. -/
def warnIcon : String := "⚠️  "

/-- Something starts. -/
def rocketIcon : String := "🚀 "

end StepFlow.Text
