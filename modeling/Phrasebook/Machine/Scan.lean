import Phrasebook.Machine.Checked

/-! Reading and searching on a machine.
Searches walk over places, where the specification walks over the rest of the text. Each of them
agrees with it as long as the text is short enough for its places to be words. -/
namespace Phrasebook.Machine

def charAt (r : Reader) (i : Nat) : Checked Char := entry r.text.toList i

def read (r : Reader) : Checked (Char × Reader) :=
  if r.position < r.text.size then do
    let next ← word (r.position + 1)
    return (r.peek, r.moveTo next)
  else return (r.peek, r)

def slice (r : Reader) (start stop : Nat) : Checked (List Char) :=
  let stop := min stop r.text.size
  stretch r.text.toList (min start stop) stop

def tail (r : Reader) (start : Nat) : Checked (List Char) :=
  stretch r.text.toList (min start r.text.size) r.text.size

def isEscaped (r : Reader) (i : Nat) : Checked Bool :=
  if 0 < i then do
    let c ← charAt r (← less i 1)
    return c == '\\'
  else return false

def findChar (r : Reader) (needle : Char) (i : Nat) : Checked (Option Nat) :=
  if i < r.text.size then do
    let c ← charAt r i
    if c = needle then
      if ← isEscaped r i then findChar r needle (i + 1) else return some i
    else findChar r needle (i + 1)
  else return none
termination_by r.text.size - i

def findClosing (r : Reader) (opening closing : Char) (depth i : Nat) : Checked (Option Nat) :=
  if i < r.text.size then do
    let c ← charAt r i
    if c = '\\' then
      let _ ← word (i + 2)
      findClosing r opening closing depth (i + 2)
    else if c = opening then
      let _ ← word (depth + 1)
      let _ ← word (i + 1)
      findClosing r opening closing (depth + 1) (i + 1)
    else if c = closing then
      if depth = 0 then return some i
      else
        let _ ← less depth 1
        let _ ← word (i + 1)
        findClosing r opening closing (depth - 1) (i + 1)
    else
      let _ ← word (i + 1)
      findClosing r opening closing depth (i + 1)
  else return none
termination_by r.text.size - i

def digitsEnd (r : Reader) (i : Nat) : Checked Nat :=
  if (r.charAt i).isDigit then do
    let _ ← word (i + 1)
    digitsEnd r (i + 1)
  else return i
termination_by r.text.size - i
decreasing_by
  have : i < r.text.size := r.lt_size_of_isDigit (by assumption)
  omega

def blockEnd (r : Reader) (start : Nat) (construct : Construct) : Checked Nat :=
  if r.charAt start = '[' then do
    match ← findClosing r '[' ']' 0 (← word (start + 1)) with
    | some close => return close
    | none => .error (.fault (.unterminated construct) start)
  else .error (.fault (.unterminated construct) start)

def optionStarts (r : Reader) (close depth i : Nat) : Checked (List Nat) :=
  if i < close then
    if r.charAt i = '\\' then do
      let _ ← word (i + 2)
      optionStarts r close depth (i + 2)
    else if r.charAt i = '{' then do
      let _ ← word (depth + 1)
      let _ ← word (i + 1)
      optionStarts r close (depth + 1) (i + 1)
    else if r.charAt i = '}' then do
      let _ ← word (i + 1)
      optionStarts r close (depth - 1) (i + 1)
    else if r.charAt i = '/' ∧ depth = 0 then do
      let start ← word (i + 1)
      let starts ← optionStarts r close depth (i + 1)
      return start :: starts
    else do
      let _ ← word (i + 1)
      optionStarts r close depth (i + 1)
  else return []
termination_by close - i

end Phrasebook.Machine
