import Phrasebook.Text

/-! Messages about a text, with the line and column they are about. -/
namespace Phrasebook

/-- An error ends the pass that reports it; after a warning it goes on. -/
inductive Severity where
  | error
  | warning
deriving Repr, DecidableEq

def Severity.label : Severity → String
  | error => "error"
  | warning => "warning"

/-- The pass that a notice comes from. Its position is in the text that this pass reads. -/
inductive Stage where
  | substitution
  | evaluation
deriving Repr, DecidableEq

def Stage.label : Stage → String
  | substitution => "preprocessor"
  | evaluation => "interpreter"

structure Notice where
  severity : Severity
  stage : Stage
  message : String
  line : Nat
  column : Nat
deriving Repr, DecidableEq

namespace Notice

def about (severity : Severity) (stage : Stage) (message : String) (text : List Char)
    (index : Nat) : Notice :=
  let (line, column) := Text.lineColumn text index
  { severity, stage, message, line, column }

def render (n : Notice) : String :=
  s!"{n.stage.label} {n.severity.label} ({n.line}:{n.column}): {n.message}"

end Notice

end Phrasebook
