import Phrasebook.Proofs.Globals.Coherence
import Phrasebook.Proofs.Sessions.Requests

/-! The notices that a request leaves.
They are those of its own passes in their order, and at the end that of the error it is answered
with, if a pass has reported one. A text that does not expand leaves a notice and nothing else. -/
namespace Phrasebook

/-- The text that a request has put in the place of its references. -/
def Request.text? (b : Book) : Request → Option String
  | expand text => some text
  | interpret text => some text
  | pattern symbol title => (b.anthologies[symbol]?.bind (·.find? title)).map Pattern.text
  | random _ => none
  | globals => none

theorem reported_map {α β : Type} (f : α → β) (result : Except BookError α) :
    reported (result.map f) = reported result := by
  cases result <;> rfl

theorem Pass.severity_warnings (p : Pass) : ∀ n ∈ p.warnings, n.severity = .warning := by
  intro n member
  unfold warnings at member
  split at member
  · contradiction
  · obtain ⟨w, _, rfl⟩ := List.mem_map.mp member
    rfl

namespace Book

variable {b : Book} {g : Generator} {request : Request} {text : List Char} {given : String}
  {cause : SubstitutionError} {index : Nat}

theorem substitute_error (failed : b.definitions.expand text = .error (cause, index)) :
    b.substitute text = (.error (.substitution
      (Notice.about .error .substitution cause.message text index)),
        b.note [Notice.about .error .substitution cause.message text index]) := by
  rw [substitute, failed]

theorem substitute_ok {expanded : List Char} (found : b.definitions.expand text = .ok expanded) :
    b.substitute text = (.ok expanded, b) := by
  rw [substitute, found]

theorem notices_expand (b : Book) (text : String) :
    (b.expand text).2.notices = reported (b.expand text).1 ∧
      ∀ n ∈ reported (b.expand text).1, n.severity = .error := by
  unfold expand
  cases result : b.clearNotices.definitions.expand text.toList with
  | ok expanded =>
    rw [substitute_ok result]
    exact ⟨rfl, nofun⟩
  | error stop =>
    obtain ⟨cause, index⟩ := stop
    rw [substitute_error result]
    exact ⟨rfl, by simp [reported, BookError.notice?, Notice.about]⟩

theorem notices_answer (b : Book) (g : Generator) (request : Request) :
    (b.answer g request).book.notices =
        (b.passes g request).flatMap Pass.warnings ++ reported (b.answer g request).result ∧
      ∀ n ∈ reported (b.answer g request).result, n.severity = .error := by
  cases answered b g request with
  | expansion text asked =>
    subst asked
    dsimp only [answer, passes]
    rw [reported_map, List.flatMap_nil, List.nil_append]
    exact notices_expand b text
  | pass p single book generator same =>
    obtain ⟨left, _, severe⟩ := run_frame p
    rw [single, same]
    dsimp only [Reply.map]
    rw [reported_map, left, book]
    refine ⟨?_, severe⟩
    simp [clearNotices]
  | refusal e none_ silent same =>
    rw [none_, same]
    simp [reported, silent, clearNotices]
  | globals asked =>
    subst asked
    have accounts := accounts_assignGlobals b g
    dsimp only [answer, passes, Reply.map]
    rw [reported_map]
    refine ⟨?_, accounts.severe⟩
    rw [accounts.notices, List.flatMap_map]
    rfl

theorem answer_unexpanded (asked : request.text? b = some given)
    (failed : b.definitions.expand given.toList = .error (cause, index)) :
    ∃ notice, notice = Notice.about .error .substitution cause.message given.toList index ∧
      b.answer g request = ⟨.error (.substitution notice), { b with notices := [notice] }, g⟩ := by
  have cleared : b.clearNotices.definitions.expand given.toList = .error (cause, index) := failed
  have stopped := substitute_error cleared
  refine ⟨_, rfl, ?_⟩
  cases request with
  | expand text =>
    cases asked
    rw [answer, expand, stopped]
    rfl
  | interpret text =>
    cases asked
    rw [answer, interpret, run, stopped]
    rfl
  | pattern symbol title =>
    obtain ⟨pattern, found, rfl⟩ := Option.map_eq_some_iff.mp asked
    obtain ⟨anthology, known, titled⟩ := Option.bind_eq_some_iff.mp found
    have known : b.clearNotices.anthologies[symbol]? = some anthology := known
    simp only [answer, interpretPattern, known, titled]
    rw [run, stopped]
    rfl
  | random symbol => contradiction
  | globals => contradiction

/-- The notices after a request are exactly the warnings of its passes and the error that it is
answered with. If its text does not expand, they are all that has changed. -/
theorem notices_exact (b : Book) (g : Generator) (request : Request) :
    (b.answer g request).book.notices =
        (b.passes g request).flatMap Pass.warnings ++ reported (b.answer g request).result ∧
      (∀ p ∈ b.passes g request, ∀ n ∈ p.warnings, n.severity = .warning) ∧
      (∀ n ∈ reported (b.answer g request).result, n.severity = .error) ∧
      ∀ given cause index, request.text? b = some given →
        b.definitions.expand given.toList = .error (cause, index) →
        ∃ notice, notice = Notice.about .error .substitution cause.message given.toList index ∧
          b.answer g request =
            ⟨.error (.substitution notice), { b with notices := [notice] }, g⟩ := by
  obtain ⟨notices, severe⟩ := notices_answer b g request
  refine ⟨notices, fun p _ => p.severity_warnings, severe, ?_⟩
  intro given cause index asked failed
  exact answer_unexpanded asked failed

/-- A phrasebook with nothing in it. -/
def bare : Book := ofGlossary .empty

/-- A call without a bank is warned of before the bracket that ends the run, and a reference without
a definition leaves only its own notice. -/
theorem notices_exact_bare :
    (bare.answer (Generator.ofSeed 7 0) (.interpret "+\x7d")).book.notices.map Notice.severity =
        [.warning, .error] ∧
      ∃ notice, bare.answer (Generator.ofSeed 7 0) (.interpret "=[x]") =
        ⟨.error (.substitution notice), { bare with notices := [notice] },
          Generator.ofSeed 7 0⟩ := by
  refine ⟨by decide +kernel, ?_⟩
  obtain ⟨_, _, _, unexpanded⟩ := notices_exact bare (Generator.ofSeed 7 0) (.interpret "=[x]")
  obtain ⟨notice, _, answered⟩ := unexpanded "=[x]" (.unknown .inline "x") 0 rfl (by cbv)
  exact ⟨notice, answered⟩

end Book

end Phrasebook
