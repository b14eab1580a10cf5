import Phrasebook.Proofs.Banks.Weights
import Phrasebook.Proofs.Calls.Carriers
import Phrasebook.Proofs.Overfull
import Phrasebook.Proofs.Safety.Picking
import Phrasebook.Proofs.Safety.Soundness
import Phrasebook.Proofs.Spellings.Legacy

/-! Words that calls select.
A call gets a word of its bank that belongs to all of its classes, whether the word is fresh or kept
by a carrier. The table of kept words is the invariant: what it holds for a key is fit for every
call with that key. -/
namespace Phrasebook

/-- The classes that a word must belong to: what stands between the commas. -/
def Call.required (call : Call) : List String :=
  ((call.className.toList.splitOn ',').filter (· ≠ [])).map String.ofList

namespace Text

variable {separator c : Char} {piece text : List Char}

theorem pieces_eq_splitOn (separator : Char) (text : List Char) :
    pieces separator text = text.splitOn separator := by
  induction text with
  | nil => rfl
  | cons c rest ih =>
    have next : (c :: rest).splitOn separator = if c = separator then [] :: rest.splitOn separator
        else (rest.splitOn separator).modifyHead (c :: ·) := by
      simp only [List.splitOn, List.splitOnP_cons_eq_if_modifyHead, beq_iff_eq]
    rw [next, pieces, ih]
    split
    · rfl
    · have parted := rest.splitOn_ne_nil separator
      cases parts : rest.splitOn separator with
      | nil => exact absurd parts parted
      | cons piece others => rfl

theorem mem_of_mem_pieces (h : piece ∈ pieces separator text) (inside : c ∈ piece) : c ∈ text := by
  induction text generalizing piece with
  | nil =>
    rw [pieces, List.mem_singleton] at h
    rwa [← h]
  | cons d rest ih =>
    rw [pieces] at h
    split at h
    · rcases List.mem_cons.mp h with rfl | later
      · contradiction
      · exact List.mem_cons_of_mem d (ih later inside)
    · cases parts : pieces separator rest with
      | nil => exact absurd parts (pieces_ne_nil separator rest)
      | cons first others =>
        simp only [parts] at h ih
        rcases List.mem_cons.mp h with rfl | later
        · rcases List.mem_cons.mp inside with rfl | further
          · exact List.mem_cons_self
          · exact List.mem_cons_of_mem d (ih List.mem_cons_self further)
        · exact List.mem_cons_of_mem d (ih (List.mem_cons_of_mem first later) inside)

end Text

namespace Call

variable {call : Call} {names : List String}

theorem isBlank_of_isClassChar {c : Char} (h : isClassChar c = true) :
    Letter.isBlank c = false := by
  rcases (Bool.or_eq_true _ _).mp h with named | comma
  · exact isBlank_of_isNameChar named
  · rw [eq_of_beq comma]
    decide

theorem required_of_list (spelled : WellSpelled call) (listed : call.classList? = some names) :
    call.required = names := by
  have trimmed : (Text.pieces ',' call.className.toList).map Text.trim =
      Text.pieces ',' call.className.toList := by
    refine (List.map_congr_left ?_).trans (List.map_id _)
    intro piece member
    apply Text.trim_eq_self
    intro c inside
    exact isBlank_of_isClassChar (spelled.className c (Text.mem_of_mem_pieces member inside))
  simp only [classList?, trimmed] at listed
  split at listed
  · rw [required, ← Text.pieces_eq_splitOn]
    exact Option.some.inj listed
  · contradiction

theorem required_of_single (single : call.classList? = none) :
    call.required = if call.className.isEmpty then [] else [call.className] := by
  simp only [classList?] at single
  split at single
  · contradiction
  · rename_i absent
    have apart : ',' ∉ call.className.toList := by simpa using absent
    rw [required, ← Text.pieces_eq_splitOn, Text.pieces_of_absent apart]
    by_cases empty : call.className = ""
    · rw [empty]
      rfl
    · have some_ : call.className.toList ≠ [] := by simpa using empty
      simp [some_, empty]

end Call

namespace State

variable {setting : Setting} {s t u : State} {call : Call} {lexicon : Lexicon} {index : Nat}
  {g g' : Generator} {picked : Picked}

theorem required_of_carrierKey? {other : Call} {key : CarrierKey}
    (h : carrierKey? call = some key) (h' : carrierKey? other = some key) :
    other.required = call.required ∧ other.symbol = call.symbol := by
  obtain ⟨_, _, rfl⟩ := Option.map_eq_some_iff.mp h
  obtain ⟨_, _, same⟩ := Option.map_eq_some_iff.mp h'
  obtain ⟨className, symbol, _⟩ := CarrierKey.mk.inj same
  exact ⟨by rw [Call.required, className, Call.required], symbol⟩

theorem pickFresh_several (stocked : lexicon.Stocked) {names : List String}
    (listed : call.classList? = some names)
    (h : pickFresh lexicon call index g = .ok (picked, g')) :
    (∃ i, picked = .word i ∧ lexicon.Fit names i) ∨
      picked = .doubt (.emptyIntersection call.symbol call.className) := by
  simp only [pickFresh, listed] at h
  split at h
  · contradiction
  · cases h
    exact .inr rfl
  · rename_i common nonempty shared
    obtain ⟨⟨picked?, _⟩, drawn, effect⟩ := bind_eq_ok.mp h
    cases effect
    have drawn := orStop_eq_ok.mp drawn
    rw [stocked.intersection_eq shared] at drawn nonempty
    rcases Lexicon.fit_of_picked drawn with ⟨empty, _⟩ | ⟨i, rfl, fit⟩
    · exact absurd empty nonempty
    · exact .inl ⟨i, rfl, fit⟩

theorem pickFresh_one (stocked : lexicon.Stocked) (single : call.classList? = none)
    (h : pickFresh lexicon call index g = .ok (picked, g')) :
    (∃ i, picked = .word i ∧
        lexicon.Fit (if call.className.isEmpty then [] else [call.className]) i) ∨
      (picked = .doubt (.emptyBank call.symbol) ∧ call.className = "" ∧ lexicon.words = []) ∨
      picked = .doubt (.unknownClass call.symbol call.className) := by
  simp only [pickFresh, single] at h
  split at h
  · cases h
    exact .inr (.inr rfl)
  · rename_i known
    have known : call.className.isEmpty ∨ lexicon.hasClass call.className := by
      simpa [or_iff_not_imp_left] using known
    obtain ⟨⟨picked?, _⟩, drawn, effect⟩ := bind_eq_ok.mp h
    cases effect
    rcases stocked.weightedPick_ok known (orStop_eq_ok.mp drawn) with
      ⟨rfl, unnamed, empty⟩ | ⟨i, rfl, fit⟩
    · exact .inr (.inl ⟨rfl, unnamed, empty⟩)
    · exact .inl ⟨i, rfl, fit⟩

/-- A fresh pick gives a fit word, or says why there is none. -/
theorem pickFresh_ok (stocked : lexicon.Stocked) (spelled : call.WellSpelled)
    (h : pickFresh lexicon call index g = .ok (picked, g')) :
    (∃ i, picked = .word i ∧ lexicon.Fit call.required i) ∨
      (picked = .doubt (.emptyBank call.symbol) ∧ call.className = "" ∧ lexicon.words = []) ∨
      picked = .doubt (.emptyIntersection call.symbol call.className) ∨
      picked = .doubt (.unknownClass call.symbol call.className) := by
  cases listed : call.classList? with
  | some names =>
    rw [Call.required_of_list spelled listed]
    rcases pickFresh_several stocked listed h with fit | none_
    · exact .inl fit
    · exact .inr (.inr (.inl none_))
  | none =>
    rw [Call.required_of_single listed]
    rcases pickFresh_one stocked listed h with fit | empty | unknown
    · exact .inl fit
    · exact .inr (.inl empty)
    · exact .inr (.inr (.inr unknown))

theorem orStop_ne_fault {α : Type} {drawn : Except RangeError α} {cause : Fault} :
    orStop drawn ≠ .error (.fault cause index) := by
  cases drawn <;> exact nofun

theorem pickFresh_error {cause : Fault} {place : Nat}
    (h : pickFresh lexicon call index g = .error (.fault cause place)) :
    ∃ names cause', lexicon.intersection names = .error cause' ∧ cause = .wordCall cause' := by
  have pick := freshPick_pickFresh lexicon call index g
  generalize pickFresh lexicon call index g = r at pick h
  cases pick with
  | @fault names cause' _ failed =>
    cases h
    exact ⟨names, cause', failed, rfl⟩
  | doubt => contradiction
  | draw =>
    rcases bind_eq_error.mp h with refused | ⟨_, _, done⟩
    · exact absurd refused orStop_ne_fault
    · contradiction

/-- What the carriers hold is fit for the calls that would get it, and only calls without a class
have found a bank empty. -/
structure Selected (setting : Setting) (text : List Char) (s : State) : Prop where
  kept : ∀ key i call lexicon, s.carriers.lookup key = some i → carrierKey? call = some key →
    setting.lexicons[call.symbol]? = some lexicon → lexicon.Fit call.required i
  warned : ∀ symbol index, ⟨.emptyBank symbol, index⟩ ∈ s.warnings →
    ∃ call lexicon, Call.parse? (text.drop index) = some call ∧ call.symbol = symbol ∧
      call.className = "" ∧ setting.lexicons[symbol]? = some lexicon ∧ lexicon.words = []

variable {text : List Char}

theorem Selected.start (setting : Setting) (text : List Char) (flags : Flags) (g : Generator) :
    Selected setting text (State.start text flags g) := by
  constructor
  · intro key i call lexicon kept
    contradiction
  · intro symbol index member
    contradiction

theorem Selected.told (h : Selected setting text s) (carriers : t.carriers = s.carriers)
    (warnings : t.warnings = s.warnings ∨ ∃ cause index, (∀ symbol, cause ≠ .emptyBank symbol) ∧
      t.warnings = ⟨cause, index⟩ :: s.warnings) : Selected setting text t := by
  constructor
  · rw [carriers]
    exact h.kept
  · intro symbol i member
    rcases warnings with same | ⟨cause, index, other, more⟩
    · rw [same] at member
      exact h.warned symbol i member
    · rw [more] at member
      rcases List.mem_cons.mp member with new | old
      · exact absurd (congrArg Warning.cause new).symm (other symbol)
      · exact h.warned symbol i old

theorem Selected.pick_fit (h : Selected setting text s) (stocked : lexicon.Stocked)
    (executes : Executes setting s call lexicon) {i : Nat}
    (picked : s.pick lexicon call = .ok (some i, u)) : lexicon.Fit call.required i := by
  rcases pickWord_ok picked with ⟨j, key, keyed, kept, same, _⟩ | ⟨_, ⟨_, _, none_, _⟩ | fresh⟩
  · cases same
    exact h.kept key i call lexicon kept keyed executes.known
  · contradiction
  · obtain ⟨j, drawn, same, _⟩ := fresh
    cases same
    have spelled := Call.wellSpelled_of_parse? executes.read
    rcases pickFresh_ok stocked spelled drawn with ⟨_, same, fit⟩ | ⟨doubt, _⟩ | doubt | doubt
    · cases same
      exact fit
    all_goals contradiction

theorem pick_warned (stocked : lexicon.Stocked) (spelled : call.WellSpelled) {picked? : Option Nat}
    (picked : s.pick lexicon call = .ok (picked?, u)) {symbol : Char}
    (member : ⟨.emptyBank symbol, index⟩ ∈ u.warnings) :
    ⟨.emptyBank symbol, index⟩ ∈ s.warnings ∨
      (index = s.reader.position ∧ call.symbol = symbol ∧ call.className = "" ∧
        lexicon.words = []) := by
  rcases pickWord_ok picked with
    ⟨_, _, _, _, _, rfl⟩ | ⟨_, ⟨cause, drawn, _, rfl⟩ | ⟨_, _, _, rfl⟩⟩
  · exact .inl member
  · rcases List.mem_cons.mp member with new | old
    · obtain ⟨same, place⟩ := Warning.mk.inj new
      subst same place
      rcases pickFresh_ok stocked spelled drawn with ⟨_, word, _⟩ | ⟨doubt, empty⟩ | doubt | doubt
      · contradiction
      · cases doubt
        exact .inr ⟨rfl, rfl, empty⟩
      all_goals cases doubt
    · exact .inl old
  · exact .inl member

theorem Selected.pick (h : Selected setting text s) (unchanged : s.reader.text = text.toArray)
    (stocked : lexicon.Stocked) (executes : Executes setting s call lexicon)
    {picked? : Option Nat} (picked : s.pick lexicon call = .ok (picked?, u)) :
    Selected setting text u := by
  constructor
  · intro key i other lexicon' kept keyed known
    by_cases own : carrierKey? call = some key
    · cases picked? with
      | none =>
        rw [pick_none picked] at kept
        exact h.kept key i other lexicon' kept keyed known
      | some j =>
        rw [pick_stored picked own] at kept
        cases kept
        obtain ⟨required, symbol⟩ := required_of_carrierKey? own keyed
        rw [symbol, executes.known] at known
        cases known
        rw [required]
        exact h.pick_fit stocked executes picked
    · rw [pick_other picked own] at kept
      exact h.kept key i other lexicon' kept keyed known
  · intro symbol i member
    have spelled := Call.wellSpelled_of_parse? executes.read
    rcases pick_warned stocked spelled picked member with old | ⟨rfl, rfl, unnamed, empty⟩
    · exact h.warned symbol i old
    · have read := executes.read
      rw [Reader.tail_eq, unchanged] at read
      exact ⟨call, lexicon, read, rfl, unnamed, executes.known, empty⟩

theorem Selected.step (h : Selected setting text s) (unchanged : s.reader.text = text.toArray)
    (stocked : setting.Stocked)
    (stepped : s.step setting = .ok t) : Selected setting text t := by
  rcases step_cases stepped with
    untold | ⟨cause, other, carriers, warnings⟩ | ⟨call, lexicon, executes⟩
  · exact h.told untold.carriers (.inl untold.warnings)
  · refine h.told carriers (.inr ⟨cause, _, ?_, warnings⟩)
    rcases other with rfl | ⟨_, rfl⟩ <;> exact nofun
  · obtain ⟨picked?, u, picked, effect⟩ := executes.step_ok stepped
    have selected := h.pick unchanged (stocked _ _ executes.known) executes picked
    rcases effect with ⟨_, rfl⟩ | ⟨i, _, written⟩
    · exact selected
    · obtain ⟨_, carriers, same | ⟨symbol, subtype, warned⟩⟩ := writeWord_keeps written
      · exact selected.told carriers (.inl same)
      · exact selected.told carriers (.inr ⟨.subtypeNotFound symbol subtype, _, nofun, warned⟩)

theorem executes_of_error {cause : LexiconError}
    (stopped : s.step setting = .error (.fault (.wordCall cause) index)) :
    ∃ call lexicon, Executes setting s call lexicon := by
  have sign := sign_of_fault stopped
  unfold step perform at stopped
  rw [sign] at stopped
  simp only [Fault.sign, wordCall] at stopped
  split at stopped
  · contradiction
  · rename_i call read
    split at stopped
    · contradiction
    · rename_i lexicon known
      exact ⟨call, lexicon, read, known⟩

theorem pick_error {stop : Stop} (h : s.pick lexicon call = .error stop) :
    pickFresh lexicon call s.reader.position s.generator = .error stop := by
  simp only [State.pick, pickWord] at h
  split at h
  · contradiction
  · change (pickFresh lexicon call s.reader.position s.generator >>= _) = _ at h
    cases drawn : pickFresh lexicon call s.reader.position s.generator with
    | error cause =>
      rw [drawn] at h
      cases h
      rfl
    | ok fresh =>
      obtain ⟨picked, generator⟩ := fresh
      rw [drawn] at h
      cases picked <;> contradiction

theorem writeWord_error {i : Nat} {article : Option PendingArticle} {stop : Stop}
    (h : s.writeWord lexicon call index i article = .error stop) :
    ∃ cause, lexicon.resolve i call.subtype s.casing = .error cause ∧
      (∀ symbol subtype, cause ≠ .subtypeNotFound symbol subtype) ∧
      stop = .fault (.wordCall cause) index := by
  simp only [writeWord] at h
  split at h
  · contradiction
  · contradiction
  · rename_i cause other failed
    cases h
    exact ⟨cause, failed, other, rfl⟩

/-- A call that ends the run asks for fewer than two classes or for one that the bank lacks. -/
theorem Selected.stop (h : Selected setting text s)
    (stocked : setting.Stocked)
    {cause : LexiconError}
    (stopped : s.step setting = .error (.fault (.wordCall cause) index)) :
    (∃ given, cause = .tooFewClasses given) ∨ ∃ symbol name, cause = .unknownClass symbol name := by
  obtain ⟨call, lexicon, executes⟩ := executes_of_error stopped
  rw [executes.step_eq] at stopped
  cases picked : s.pick lexicon call with
  | error stop =>
    rw [picked] at stopped
    cases stopped
    obtain ⟨names, _, failed, same⟩ := pickFresh_error (pick_error picked)
    cases same
    rcases Lexicon.intersection_error failed with ⟨_, few⟩ | ⟨name, _, unknown⟩
    · exact .inl ⟨_, few⟩
    · exact .inr ⟨_, name, unknown⟩
  | ok result =>
    obtain ⟨picked?, u⟩ := result
    rw [picked] at stopped
    cases picked? with
    | none => contradiction
    | some i =>
      obtain ⟨_, failed, other, _⟩ := writeWord_error stopped
      have fit := h.pick_fit (stocked _ _ executes.known) executes picked
      exact absurd (fit.resolve_error failed) (other _ _)

/-- Every call of a run, the empty banks it has found, and the calls that may end it. A pick from a
bank with less than 2 ^ 31 words overflows nowhere. -/
theorem selection_sound (text : List Char) (flags : Flags) (g : Generator)
    (stocked : setting.Stocked)
    (reached : Reaches setting (State.start text flags g) s) :
    (∀ call lexicon i u, Executes setting s call lexicon →
      s.pick lexicon call = .ok (some i, u) →
        lexicon.Fit call.required i ∧
          ∀ casing cause, lexicon.resolve i call.subtype casing = .error cause →
            cause = .subtypeNotFound lexicon.symbol call.subtype) ∧
    (∀ call lexicon, Executes setting s call lexicon → lexicon.words.length < 2 ^ 31 →
      Machine.pickWord (s.calling call) lexicon call s.reader.position =
        Machine.lift (s.pick lexicon call)) ∧
    (∀ symbol index, ⟨.emptyBank symbol, index⟩ ∈ s.warnings →
      ∃ call lexicon, Call.parse? (text.drop index) = some call ∧ call.symbol = symbol ∧
        call.className = "" ∧ setting.lexicons[symbol]? = some lexicon ∧ lexicon.words = []) ∧
    ∀ cause index, s.step setting = .error (.fault (.wordCall cause) index) →
      (∃ given, cause = .tooFewClasses given) ∨
        ∃ symbol name, cause = .unknownClass symbol name := by
  have invariant : Sound text s ∧ Selected setting text s := by
    apply reached.preserves (P := fun t => Sound text t ∧ Selected setting text t)
    · intro u v ⟨sound, selected⟩ more stepped
      exact ⟨sound.step more stepped, selected.step sound.unchanged stocked stepped⟩
    · exact ⟨.start text flags g, .start setting text flags g⟩
  obtain ⟨_, selected⟩ := invariant
  refine ⟨?_, ?_, selected.warned, fun cause index stopped => selected.stop stocked stopped⟩
  · intro call lexicon i u executes picked
    have fit := selected.pick_fit (stocked _ _ executes.known) executes picked
    exact ⟨fit, fun casing cause failed => fit.resolve_error failed⟩
  · intro call lexicon executes small
    exact Machine.pickWord_eq (stocked _ _ executes.known) small

theorem stocked_pets : petSetting.Stocked := by
  intro symbol lexicon known
  have made : Lexicon.make 'N' "pets" "" ["one", "many"] [cat, dog] = .ok pets := rfl
  rw [petSetting, Std.ExtTreeMap.getElem?_insert] at known
  split at known
  · cases known
    exact .made made
  · simp at known

/-- The call in the modern spelling gets the word that the one in the legacy spelling picked. -/
theorem selection_sound_pets :
    petSetting.Stocked ∧ ∃ s u, Reaches petSetting petStart s ∧
      Executes petSetting s modernPets pets ∧ s.pick pets modernPets = .ok (some 1, u) ∧
      pets.Fit ["pet"] 1 := by
  have run : (advance? petSetting 6 petStart).map (fun s =>
      (Call.parse? (s.reader.tail s.reader.position),
        (s.pick pets modernPets).toOption.map Prod.fst)) =
      some (some modernPets, some (some 1)) := by
    decide +kernel
  obtain ⟨s, advanced, got⟩ := Option.map_eq_some_iff.mp run
  obtain ⟨read, got⟩ := Prod.mk.inj got
  obtain ⟨⟨_, u⟩, picked, rfl⟩ := Option.map_eq_some_iff.mp got
  have picked := toOption_eq_some.mp picked
  have reached := reaches_of_advance? advanced
  have executes : Executes petSetting s modernPets pets := ⟨read, by simp [petSetting, modernPets]⟩
  have sound := selection_sound _ _ _ stocked_pets reached
  exact ⟨stocked_pets, s, u, reached, executes, picked,
    (sound.1 modernPets pets 1 u executes picked).1⟩

end State

end Phrasebook
