import Phrasebook.Evaluation.Potential

/-! Whole runs of a pattern, from its first character to its end or to a fault. -/
namespace Phrasebook

/-- The last state that a run reaches, and why it stopped there if the text has not ended. -/
def State.finish (setting : Setting) (s : State) : State × Option Stop :=
  if _ : s.reader.atEnd = true then (s, none)
  else
    match _ : s.step setting with
    | .error stop => (s, some stop)
    | .ok s' => s'.finish setting
termination_by s.potential
decreasing_by exact State.potential_step (by simp_all) (by assumption)

structure Outcome where
  result : Except Stop Output
  flags : Flags
  warnings : List Warning
  generator : Generator

/-- Runs a text whose references have been replaced. -/
def evaluate (setting : Setting) (text : List Char) (flags : Flags) (generator : Generator) :
    Outcome :=
  let (s, stop?) := (State.start text flags generator).finish setting
  { result := match stop? with
      | some stop => .error stop
      | none => .ok s.streams.finish
    flags := s.globalFlags
    warnings := s.warnings.reverse
    generator := s.generator }

end Phrasebook
