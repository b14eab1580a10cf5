import Phrasebook.Proofs.Structure.Term

/-! What a term does, by recursion on the term.
There is no text, no position and no bracket here: an option that is not chosen is not looked at, a
repetition is a loop, and a group ends with its body. -/
namespace Phrasebook.Structure

structure Scene where
  streams : Streams
  localFlags : Flags
  globalFlags : Flags
  generator : Generator

structure Given where
  lineBreak : String
  salt : UInt64

/-- Whether a flag of an iteration is set in the `i`-th of so many. -/
def holdsIn (limit i : Nat) : IterationMark → Bool
  | .first => i == 1
  | .last => i == limit
  | .odd => i % 2 == 1
  | .even => i % 2 == 0

namespace Scene

def flags (sc : Scene) : FlagScope → Flags
  | .run => sc.localFlags
  | .lasting => sc.globalFlags

def setFlags (sc : Scene) (scope : FlagScope) (flags : Flags) : Scene :=
  match scope with
  | .run => { sc with localFlags := flags }
  | .lasting => { sc with globalFlags := flags }

def write (sc : Scene) (text : String) : Scene := { sc with streams := sc.streams.write text }

def draw (sc : Scene) : Nat × Scene :=
  (sc.generator.next.1, { sc with generator := sc.generator.next.2 })

def enter (sc : Scene) (group : Group) : Scene :=
  { sc with
    streams := {
      byName := sc.streams.byName.insertIfNew group.name Stream.empty
      inner := group :: sc.streams.inner } }

def leave (sc before : Scene) : Scene :=
  { sc with streams := { sc.streams with inner := before.streams.inner } }

def mark (sc : Scene) (depth limit i : Nat) : Scene :=
  { sc with
    localFlags := IterationMark.all.foldl
      (fun flags m =>
        if holdsIn limit i m then flags.insert (m.flagName depth)
        else flags.erase (m.flagName depth)) sc.localFlags }

def unmark (sc : Scene) (depth : Nat) : Scene :=
  { sc with
    localFlags := IterationMark.all.foldl (fun flags m => flags.erase (m.flagName depth))
      sc.localFlags }

/-- The separator before an iteration sees the flags of that iteration, and so does the content,
whatever the separator did to them. -/
def approach (depth limit i : Nat) (separator : Scene → Scene) (sc : Scene) : Scene :=
  (separator (sc.mark depth limit i)).mark depth limit i

def further (depth limit : Nat) (separator content : Scene → Scene) :
    Nat → Nat → Scene → Scene
  | _, 0, sc => sc.unmark depth
  | i, left + 1, sc =>
    further depth limit separator content (i + 1) left
      (content (sc.approach depth limit (i + 1) separator))

def cycle (depth limit : Nat) (separator content : Scene → Scene) (sc : Scene) : Scene :=
  further depth limit separator content 1 (limit - 1) (content (sc.mark depth limit 1))

end Scene

/-- The number of the option to run: fixed by the tag, or else drawn. -/
def choice (given : Given) (options : Nat) (tag : Option Tag) (sc : Scene) : Nat × Scene :=
  match tag with
  | none => (sc.draw.1 % options, sc.draw.2)
  | some id => (Frame.value ⟨given.salt, Int64.ofNat id.val.value⟩ % options, sc)

mutual

/-- Runs an item inside so many repetitions. -/
def Item.run (given : Given) (depth : Nat) : Item → Scene → Scene
  | .plain c, sc => sc.write (String.singleton c.val)
  | .escaped c, sc => sc.write (String.singleton c.val)
  | .lineBreak, sc => sc.write given.lineBreak
  | .block body, sc => runTerm given depth body sc
  | .selector tag first second others, sc =>
    match choice given (others.length + 2) tag sc with
    | (0, sc) => runTerm given depth first sc
    | (1, sc) => runTerm given depth second sc
    | (i + 2, sc) => runOption given depth others i sc
  | .frequency percent body, sc =>
    if sc.draw.1 % 101 ≤ min percent.val.value 100 then runTerm given depth body sc.draw.2
    else sc.draw.2
  | .repetition times separator content, sc =>
    sc.cycle (depth + 1) times.val.value (runTerm given (depth + 1) separator)
      (runTerm given (depth + 1) content)
  | .assign scope present flag, sc =>
    sc.setFlags scope
      (if present then (sc.flags scope).insert flag.text else (sc.flags scope).erase flag.text)
  | .test scope present flag body, sc =>
    if (sc.flags scope).contains flag.text = present then runTerm given depth body sc else sc
  | .group visibility name body, sc =>
    (runTerm given depth body (sc.enter ⟨name.text, visibility⟩)).leave sc

def runTerm (given : Given) (depth : Nat) : List Item → Scene → Scene
  | [], sc => sc
  | item :: term, sc => runTerm given depth term (item.run given depth sc)

def runOption (given : Given) (depth : Nat) : List (List Item) → Nat → Scene → Scene
  | [], _, sc => sc
  | option :: _, 0, sc => runTerm given depth option sc
  | _ :: options, i + 1, sc => runOption given depth options i sc

end

theorem Scene.inner_setFlags (sc : Scene) (scope : FlagScope) (flags : Flags) :
    (sc.setFlags scope flags).streams = sc.streams := by
  cases scope <;> rfl

theorem Scene.inner_write (sc : Scene) (text : String) :
    (sc.write text).streams.inner = sc.streams.inner := by
  unfold Scene.write Streams.write
  split <;> rfl

theorem choice_streams (given : Given) (options : Nat) (tag : Option Tag) (sc : Scene) :
    (choice given options tag sc).2.streams = sc.streams := by
  cases tag <;> rfl

theorem Scene.inner_cycle {separator content : Scene → Scene}
    (hs : ∀ sc, (separator sc).streams.inner = sc.streams.inner)
    (hc : ∀ sc, (content sc).streams.inner = sc.streams.inner) (depth limit : Nat) (sc : Scene) :
    (sc.cycle depth limit separator content).streams.inner = sc.streams.inner := by
  have further : ∀ left i (sc : Scene),
      (Scene.further depth limit separator content i left sc).streams.inner =
        sc.streams.inner := by
    intro left
    induction left with
    | zero =>
      intro i sc
      rfl
    | succ left ih =>
      intro i sc
      rw [Scene.further, ih, hc]
      exact hs (sc.mark depth limit (i + 1))
  rw [Scene.cycle, further, hc]
  rfl

mutual

theorem Item.inner_run (given : Given) : (item : Item) → ∀ depth sc,
    (item.run given depth sc).streams.inner = sc.streams.inner
  | .plain _, _, sc => sc.inner_write _
  | .escaped _, _, sc => sc.inner_write _
  | .lineBreak, _, sc => sc.inner_write _
  | .block body, depth, sc => inner_runTerm given body depth sc
  | .selector tag first second others, depth, sc => by
    have same := congrArg Streams.inner (choice_streams given (others.length + 2) tag sc)
    rw [Item.run]
    split
    · rename_i chosen
      rw [chosen] at same
      rw [inner_runTerm given first, same]
    · rename_i chosen
      rw [chosen] at same
      rw [inner_runTerm given second, same]
    · rename_i chosen
      rw [chosen] at same
      rw [inner_runOption given others, same]
  | .frequency percent body, depth, sc => by
    rw [Item.run]
    split
    · rw [inner_runTerm given body]
      rfl
    · rfl
  | .repetition _ separator content, depth, sc =>
    sc.inner_cycle (inner_runTerm given separator (depth + 1))
      (inner_runTerm given content (depth + 1)) _ _
  | .assign scope _ _, _, sc =>
    congrArg Streams.inner (sc.inner_setFlags scope _)
  | .test scope present flag body, depth, sc => by
    rw [Item.run]
    split
    · exact inner_runTerm given body depth sc
    · rfl
  | .group .., _, _ => rfl

theorem inner_runTerm (given : Given) : (term : List Item) → ∀ depth sc,
    (runTerm given depth term sc).streams.inner = sc.streams.inner
  | [], _, _ => rfl
  | item :: term, depth, sc => by
    rw [runTerm, inner_runTerm given term, item.inner_run given]

theorem inner_runOption (given : Given) : (options : List (List Item)) → ∀ depth i sc,
    (runOption given depth options i sc).streams.inner = sc.streams.inner
  | [], _, _, _ => rfl
  | option :: _, depth, 0, sc => inner_runTerm given option depth sc
  | _ :: options, depth, i + 1, sc => inner_runOption given options depth i sc

end

end Phrasebook.Structure
