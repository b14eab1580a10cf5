import Phrasebook.Proofs.Draws

/-! How a step stops.
Every fault belongs to the sign of one construct. A step that stops does so in a fault of the sign
that it has read, or in a choice among a multiple of 2 ^ 32 things; no other draw is refused. -/
namespace Phrasebook

/-- The character of a sign that no other character has. -/
def Sign.char? : Sign → Option Char
  | escape => some '\\'
  | openGroup => some '<'
  | closeGroup => some '>'
  | openSelector => some '{'
  | slash => some '/'
  | closeSelector => some '}'
  | tag => some '*'
  | repetition => some '^'
  | openBlock => some '['
  | closeBlock => some ']'
  | flag => some '$'
  | call => some '+'
  | carriageReturn => some '\r'
  | casing => some '~'
  | upper => some '@'
  | number => some '#'
  | digit | lineBreak | literal => none

theorem Sign.char?_ofChar {c d : Char} (h : (ofChar c).char? = some d) : c = d := by
  unfold ofChar at h
  split at h
  all_goals
    first
      | exact Option.some.inj h
      | contradiction
      | split at h <;> contradiction

def Construct.sign : Construct → Sign
  | outputGroup => .openGroup
  | frequencyBody => .digit
  | selector => .openSelector
  | repeaterCount | repeaterSeparator | repeaterContent => .repetition
  | flagName | flagBody => .flag
  | randomNumber => .number

def Fault.sign : Fault → Sign
  | unterminated construct => construct.sign
  | malformedGroup => .openGroup
  | unmatchedGroupClose => .closeGroup
  | zeroFrequency => .digit
  | selectorArity _ => .openSelector
  | unmatchedSelectorClose => .closeSelector
  | malformedUniform => .tag
  | malformedRepeater _ => .repetition
  | unknownFlagFunction _ | missingFlagName _ => .flag
  | malformedNumber _ => .number
  | wordCall _ => .call

/-- The stop is a fault of the sign, or a draw for which this is the reason. -/
def Stop.About (sign : Sign) (refused : Prop) : Stop → Prop
  | .fault cause _ => cause.sign = sign
  | .draw cause => cause = .zeroBound ∧ refused

/-- What does not succeed ends in a fault of the sign, or in a draw refused for this reason. -/
def Blames {α : Type} (sign : Sign) (refused : Prop) (r : Except Stop α) : Prop :=
  ∀ stop, r = .error stop → stop.About sign refused

namespace Blames

variable {α β : Type} {sign : Sign} {refused refused' : Prop}

theorem ok (a : α) : Blames sign refused (.ok a) := by
  intro stop h
  cases h

theorem fault {cause : Fault} (h : cause.sign = sign) (index : Nat) :
    Blames sign refused (.error (.fault cause index) : Except Stop α) := by
  intro stop same
  cases same
  exact h

theorem bind {x : Except Stop α} {f : α → Except Stop β} (hx : Blames sign refused x)
    (hf : ∀ a, x = .ok a → Blames sign refused (f a)) : Blames sign refused (x >>= f) := by
  cases x with
  | error stop =>
    intro _ same
    cases same
    exact hx stop rfl
  | ok a => exact hf a rfl

theorem orStop {drawn : Except RangeError α}
    (h : ∀ cause, drawn = .error cause → cause = .zeroBound ∧ refused) :
    Blames sign refused (orStop drawn) := by
  cases drawn with
  | ok a => exact .ok a
  | error cause =>
    intro stop same
    cases same
    exact h cause rfl

theorem orStop_of_ok {drawn : Except RangeError α} (h : ∃ a, drawn = .ok a) :
    Blames sign refused (Phrasebook.orStop drawn) := by
  obtain ⟨a, rfl⟩ := h
  exact .ok a

theorem blockEnd (r : Reader) (start : Nat) {construct : Construct} (h : construct.sign = sign) :
    Blames sign refused (r.blockEnd start construct) := by
  subst h
  unfold Reader.blockEnd
  split
  · split
    · exact .ok _
    · exact .fault rfl _
  · exact .fault rfl _

theorem mono {r : Except Stop α} (h : Blames sign refused r) (weaker : refused → refused') :
    Blames sign refused' r := by
  intro stop stopped
  have about := h stop stopped
  cases stop with
  | fault cause index => exact about
  | draw cause => exact ⟨about.1, weaker about.2⟩

end Blames

namespace State

variable {setting : Setting} {s : State} {c : Char} {index : Nat}

theorem blames_openGroup : Blames .openGroup False (s.openGroup index) := by
  simp only [openGroup]
  split
  · exact .fault rfl _
  · split
    · exact .fault rfl _
    · split
      · exact .fault rfl _
      · exact .ok _

theorem blames_closeGroup : Blames .closeGroup False (s.closeGroup index) := by
  unfold closeGroup
  split
  · exact .ok _
  · exact .fault rfl _

theorem blames_closeSelector : Blames .closeSelector False (s.closeSelector index) := by
  unfold closeSelector
  split
  · exact .ok _
  · exact .fault rfl _

theorem blames_readTag : Blames .tag False (s.readTag index) := by
  simp only [readTag]
  split
  · exact .ok _
  · exact .fault rfl _

theorem blames_digit : Blames .digit False (s.digit c index) := by
  simp only [digit]
  split
  · split
    · exact .fault rfl _
    · apply Blames.bind (.blockEnd _ _ rfl)
      intro close _
      refine .bind (.orStop_of_ok ?_) fun _ _ => .ok _
      exact ⟨_, Generator.below_of_pos s.generator (by decide)⟩
  · exact .ok _

theorem blames_openSelector :
    Blames .openSelector (s.Refuses setting index .openSelector) (s.openSelector index) := by
  simp only [openSelector]
  split
  · exact .fault rfl _
  · rename_i closed
    split
    · exact .fault rfl _
    · rename_i several
      refine .bind (.orStop fun cause refused => ?_) fun _ _ => .ok _
      obtain ⟨zero, untagged, whole⟩ := choose_error (by omega) refused
      exact ⟨zero, _, Nat.succ_pos _, whole, .options untagged closed⟩

theorem blames_openRepetition : Blames .repetition False (s.openRepetition index) := by
  simp only [openRepetition]
  apply Blames.bind (.blockEnd _ _ rfl)
  intro countEnd _
  apply Blames.bind (.blockEnd _ _ rfl)
  intro separatorEnd _
  apply Blames.bind (.blockEnd _ _ rfl)
  intro contentEnd _
  split
  · exact .fault rfl _
  · rename_i parsed
    exact .bind (.orStop_of_ok (Count.exists_draw parsed s.generator)) fun _ _ => .ok _

theorem blames_flag : Blames .flag False (s.flag index) := by
  simp only [flag]
  split
  · exact .fault rfl _
  · apply Blames.bind (.blockEnd _ _ rfl)
    intro nameEnd _
    split
    · exact .fault rfl _
    · split
      · exact .ok _
      · exact .ok _
      all_goals exact .bind (.blockEnd _ _ rfl) fun _ _ => .ok _

theorem blames_randomNumber : Blames .number False (s.randomNumber index) := by
  unfold randomNumber
  apply Blames.bind (.blockEnd _ _ rfl)
  intro close _
  split
  · exact .fault rfl _
  · rename_i read
    refine .bind (.orStop_of_ok ?_) fun _ _ => .ok _
    exact ⟨_, Generator.range_of_lt s.generator (lt_of_numberRange read)⟩

theorem blames_pickFresh (lexicon : Lexicon) (call : Call) (index : Nat) (g : Generator) :
    Blames .call (0 < (lexicon.offered call).length ∧ 2 ^ 32 ∣ (lexicon.offered call).length ∧
      Lexicon.sumOf lexicon.weightAt (lexicon.offered call) = 0)
      (pickFresh lexicon call index g) := by
  have pick := freshPick_pickFresh lexicon call index g
  generalize pickFresh lexicon call index g = r at pick ⊢
  cases pick with
  | fault => exact .fault rfl _
  | doubt => exact .ok _
  | draw => exact .bind (.orStop fun _ => Lexicon.weightedPickAmong_error) fun _ _ => .ok _

theorem blames_pickWord {call : Call} {lexicon : Lexicon}
    (read : Call.parse? (s.reader.tail index) = some call)
    (known : setting.lexicons[call.symbol]? = some lexicon) (u : State)
    (carriers : u.carriers = s.carriers) :
    Blames .call (s.Refuses setting index .call) (u.pickWord lexicon call index) := by
  simp only [pickWord, carriers]
  split
  · exact .ok _
  · rename_i fresh
    apply Blames.bind
    · refine (blames_pickFresh lexicon call index _).mono ?_
      rintro ⟨filled, whole, weightless⟩
      exact ⟨_, filled, whole, .words read known fresh weightless⟩
    · intro picked _
      cases picked.1 <;> exact .ok _

theorem blames_wordCall :
    Blames .call (s.Refuses setting index .call) (s.wordCall setting index) := by
  simp only [wordCall]
  split
  · exact .ok _
  · rename_i call read
    split
    · exact .ok _
    · rename_i lexicon known
      apply Blames.bind
      · exact blames_pickWord read known _ rfl
      · intro picked _
        split
        · exact .ok _
        · simp only [writeWord]
          split
          · exact .ok _
          · exact .ok _
          · exact .fault rfl _

theorem blames_perform :
    Blames (Sign.ofChar c) (s.Refuses setting index (Sign.ofChar c))
      (s.perform setting c index) := by
  unfold perform
  generalize Sign.ofChar c = sign
  cases sign with
  | openGroup => exact blames_openGroup.mono False.elim
  | closeGroup => exact blames_closeGroup.mono False.elim
  | digit => exact blames_digit.mono False.elim
  | openSelector => exact blames_openSelector
  | closeSelector => exact blames_closeSelector.mono False.elim
  | tag => exact blames_readTag.mono False.elim
  | repetition => exact blames_openRepetition.mono False.elim
  | flag => exact blames_flag.mono False.elim
  | call => exact blames_wordCall
  | number => exact blames_randomNumber.mono False.elim
  | escape | slash | openBlock | closeBlock | lineBreak | carriageReturn | casing | upper
    | literal => exact .ok _

/-- The step at a state is refused its choice. -/
def Overfull (setting : Setting) (s : State) : Prop :=
  s.Refuses setting s.reader.position (Sign.ofChar s.reader.peek)

theorem refuses_read {sign : Sign} :
    { s with reader := s.reader.read.2 }.Refuses setting index sign ↔
      s.Refuses setting index sign := by
  constructor
  all_goals
    rintro ⟨count, filled, whole, among⟩
    refine ⟨count, filled, whole, ?_⟩
    cases among with
    | options untagged closed => exact .options untagged closed
    | words read known fresh weightless => exact .words read known fresh weightless

theorem blames_step (setting : Setting) (s : State) :
    Blames (Sign.ofChar s.reader.peek) (s.Overfull setting) (s.step setting) :=
  blames_perform.mono refuses_read.mp

theorem sign_of_fault {cause : Fault} (h : s.step setting = .error (.fault cause index)) :
    Sign.ofChar s.reader.peek = cause.sign :=
  (blames_step setting s _ h).symm

end State

end Phrasebook
