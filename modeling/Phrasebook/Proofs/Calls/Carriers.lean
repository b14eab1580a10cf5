import Phrasebook.Proofs.Calls.Execution

/-! Words that carriers keep.
The first call with a key that gets a word stores it. Every later call of the run with that key gets
the same word without a draw, however the two are spelled and whatever form they ask for. -/
namespace Phrasebook.State

variable {setting : Setting} {s t u : State} {call : Call} {lexicon : Lexicon} {key : CarrierKey}
  {picked? : Option Nat} {i : Nat}

/-- A kept word is picked as it is, and nothing is drawn, stored or warned of. -/
theorem pick_kept (keyed : carrierKey? call = some key) (kept : s.carriers.lookup key = some i) :
    s.pick lexicon call = .ok (some i, s.calling call) := by
  have found : (carrierKey? call).bind (fun key => (s.calling call).carriers.lookup key) =
      some i := by
    rw [keyed]
    exact kept
  unfold pick pickWord
  rw [found]

theorem pick_none (h : s.pick lexicon call = .ok (none, u)) : u.carriers = s.carriers := by
  rcases pickWord_ok h with ⟨_, _, _, _, some_, _⟩ | ⟨_, ⟨_, _, _, rfl⟩ | ⟨_, _, some_, _⟩⟩
  · contradiction
  · rfl
  · contradiction

theorem pick_stored (h : s.pick lexicon call = .ok (some i, u))
    (keyed : carrierKey? call = some key) : u.carriers.lookup key = some i := by
  rcases pickWord_ok h with ⟨j, other, named, kept, same, rfl⟩ | ⟨_, ⟨_, _, none_, _⟩ | fresh⟩
  · rw [keyed] at named
    cases named
    rw [kept, same]
  · contradiction
  · obtain ⟨j, _, same, rfl⟩ := fresh
    cases same
    simp [keyed]

theorem pick_other (h : s.pick lexicon call = .ok (picked?, u))
    (other : carrierKey? call ≠ some key) : u.carriers.lookup key = s.carriers.lookup key := by
  rcases pickWord_ok h with ⟨_, _, _, _, _, rfl⟩ | ⟨_, ⟨_, _, _, rfl⟩ | ⟨j, _, _, rfl⟩⟩
  · rfl
  · rfl
  · cases named : carrierKey? call with
    | none => simp [calling, moveTo]
    | some stored =>
      have apart : (key == stored) = false := by
        rw [beq_eq_false_iff_ne]
        rintro rfl
        exact other named
      simp [calling, moveTo, List.lookup_cons, apart]

theorem lookup_pick (h : s.pick lexicon call = .ok (picked?, u))
    (kept : s.carriers.lookup key = some i) : u.carriers.lookup key = some i := by
  by_cases keyed : carrierKey? call = some key
  · rw [pick_kept keyed kept] at h
    cases h
    exact kept
  · rw [pick_other h keyed]
    exact kept

/-- A step stores what its call picked. -/
theorem Executes.carriers (executes : Executes setting s call lexicon)
    (stepped : s.step setting = .ok t) :
    ∃ picked? u, s.pick lexicon call = .ok (picked?, u) ∧ t.carriers = u.carriers := by
  obtain ⟨picked?, u, picked, ⟨_, rfl⟩ | ⟨j, _, written⟩⟩ := executes.step_ok stepped
  · exact ⟨picked?, t, picked, rfl⟩
  · exact ⟨picked?, u, picked, (writeWord_keeps written).2.1⟩

theorem lookup_step (stepped : s.step setting = .ok t) (kept : s.carriers.lookup key = some i) :
    t.carriers.lookup key = some i := by
  rcases step_cases stepped with untold | ⟨_, _, same, _⟩ | ⟨call, lexicon, executes⟩
  · rw [untold.carriers]
    exact kept
  · rw [same]
    exact kept
  · obtain ⟨picked?, u, picked, same⟩ := executes.carriers stepped
    rw [same]
    exact lookup_pick picked kept

/-- What a key has stored stays for the rest of the run. -/
theorem lookup_reaches (h : Reaches setting s t) (kept : s.carriers.lookup key = some i) :
    t.carriers.lookup key = some i :=
  h.preserves (fun _ _ kept _ stepped => lookup_step stepped kept) kept

/-- A call gets a word that was kept. It draws nothing, stores nothing and warns at most of a form
that the word does not have. -/
structure Repeats (setting : Setting) (s : State) (call : Call) (lexicon : Lexicon) (i : Nat) :
    Prop where
  picked : s.pick lexicon call = .ok (some i, s.calling call)
  generator : ∀ t, s.step setting = .ok t → t.generator = s.generator
  carriers : ∀ t, s.step setting = .ok t → t.carriers = s.carriers
  warnings : ∀ t, s.step setting = .ok t →
    t.warnings = s.warnings ∨ ∃ symbol subtype,
      t.warnings = ⟨.subtypeNotFound symbol subtype, s.reader.position⟩ :: s.warnings

theorem Executes.repeats (executes : Executes setting s call lexicon)
    (keyed : carrierKey? call = some key) (kept : s.carriers.lookup key = some i) :
    Repeats setting s call lexicon i := by
  have picked : s.pick lexicon call = .ok (some i, s.calling call) := pick_kept keyed kept
  have written (t : State) (stepped : s.step setting = .ok t) :
      (s.calling call).writeWord lexicon call s.reader.position i s.article = .ok t := by
    rw [executes.step_eq, picked] at stepped
    exact stepped
  constructor
  · exact picked
  · intro t stepped
    exact (writeWord_keeps (written t stepped)).1
  · intro t stepped
    exact (writeWord_keeps (written t stepped)).2.1
  · intro t stepped
    exact (writeWord_keeps (written t stepped)).2.2

/-- A call of a run, and any later call of the run. Where the first got no word it stored nothing,
and it never touches other keys; if it got a word, a later call with its key gets that word. -/
theorem carriers_consistent (executes : Executes setting s call lexicon)
    (stepped : s.step setting = .ok t) :
    (∀ v, s.pick lexicon call = .ok (none, v) → t.carriers = s.carriers) ∧
    (∀ other, carrierKey? call ≠ some other →
      t.carriers.lookup other = s.carriers.lookup other) ∧
    ∀ i v key, s.pick lexicon call = .ok (some i, v) → carrierKey? call = some key →
      ∀ u again lexicon', Reaches setting t u → Executes setting u again lexicon' →
        carrierKey? again = some key → Repeats setting u again lexicon' i := by
  obtain ⟨picked?, w, picked, same⟩ := executes.carriers stepped
  refine ⟨?_, ?_, ?_⟩
  · intro v failed
    rw [same]
    rw [failed] at picked
    cases picked
    exact pick_none failed
  · intro other apart
    rw [same]
    exact pick_other picked apart
  · intro i v key got keyed u again lexicon' later executes' shared
    rw [got] at picked
    cases picked
    have stored : t.carriers.lookup key = some i := by
      rw [same]
      exact pick_stored got keyed
    exact executes'.repeats shared (lookup_reaches later stored)

def cat : Word := Word.make ["cat", "cats"] 1 ["pet"]

def dog : Word := Word.make ["dog", "dogs"] 1 ["pet"]

def pets : Lexicon where
  symbol := 'N'
  title := "pets"
  description := ""
  subtypes := ["one", "many"]
  words := [cat, dog]
  classIndex := Lexicon.enter 1 dog (Lexicon.enter 0 cat ∅)

def petSetting : Setting where
  lexicons := (∅ : Std.ExtTreeMap Char Lexicon).insert 'N' pets
  lineBreak := "\n"

/-- A call in the legacy spelling picks, and one in the modern spelling repeats twice. -/
def petStart : State :=
  start "+[pet]N<k>^[2][][ +N[many of pet for k]]".toList ∅ (Generator.ofSeed 7 0)

def legacyPet : Call := ⟨'N', "", "pet", some "k", 10⟩

def modernPets : Call := ⟨'N', "many", "pet", some "k", 21⟩

theorem carriers_consistent_pets :
    ∃ t u, petStart.step petSetting = .ok t ∧ Reaches petSetting t u ∧
      Executes petSetting u modernPets pets ∧ Repeats petSetting u modernPets pets 1 := by
  have known : petSetting.lexicons['N']? = some pets := by simp [petSetting]
  have first : Executes petSetting petStart legacyPet pets := ⟨by decide +kernel, known⟩
  have got : (petStart.pick pets legacyPet).toOption.map Prod.fst = some (some 1) := by
    decide +kernel
  have run : ((petStart.step petSetting).toOption.bind (advance? petSetting 5)).map
      (fun u => Call.parse? (u.reader.tail u.reader.position)) = some (some modernPets) := by
    decide +kernel
  obtain ⟨u, reached, read⟩ := Option.map_eq_some_iff.mp run
  obtain ⟨t, stepped, advanced⟩ := Option.bind_eq_some_iff.mp reached
  have stepped := toOption_eq_some.mp stepped
  obtain ⟨⟨_, v⟩, picked, rfl⟩ := Option.map_eq_some_iff.mp got
  have second : Executes petSetting u modernPets pets := ⟨read, known⟩
  have later := reaches_of_advance? advanced
  exact ⟨t, u, stepped, later, second,
    (carriers_consistent first stepped).2.2 1 v _ (toOption_eq_some.mp picked) rfl u modernPets
      pets later second rfl⟩

end Phrasebook.State
