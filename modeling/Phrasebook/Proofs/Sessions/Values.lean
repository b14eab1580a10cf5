import Phrasebook.Library
import Phrasebook.Proofs.Globals.Coherence
import Phrasebook.Proofs.Sessions.Requests

/-! Values of globals over all uses of a phrasebook.
Only an evaluation of all globals sets values, and it drops the old ones before. Up to the next one
a value stays for as long as the body that it comes from: a new body takes the value away, and
nothing else touches either. -/
namespace Phrasebook

/-- What can be done with a phrasebook. What draws comes with the generator that it draws from. -/
inductive Operation where
  | request (g : Generator) (request : Request)
  | defineInline (name body : String)
  | defineGlobal (name body : String)
  | setFlag (name : String)
  | unsetFlag (name : String)
  | clearFlags
  | addLexicon (lexicon : Lexicon)
  | addAnthology (anthology : Anthology)
  | reshuffle (factor : UInt32) (g : Generator)

/-- The last evaluation of all globals in a list of operations, with what is before and after. -/
structure Latest (operations before : List Operation) (g : Generator) (after : List Operation) :
    Prop where
  split : operations = before ++ .request g .globals :: after
  last : ∀ g', .request g' .globals ∉ after

theorem exists_latest {operations : List Operation}
    (h : ∃ g, .request g .globals ∈ operations) :
    ∃ before g after, Latest operations before g after := by
  induction operations with
  | nil =>
    obtain ⟨_, member⟩ := h
    contradiction
  | cons operation rest ih =>
    by_cases later : ∃ g, .request g .globals ∈ rest
    · obtain ⟨before, g, after, latest⟩ := ih later
      exact ⟨operation :: before, g, after, congrArg (operation :: ·) latest.split, latest.last⟩
    · obtain ⟨g, member⟩ := h
      rcases List.mem_cons.mp member with rfl | member
      · exact ⟨[], g, rest, rfl, fun g' again => later ⟨g', again⟩⟩
      · exact absurd ⟨g, member⟩ later

namespace Book

def operate (b : Book) : Operation → Book
  | .request g request => (b.answer g request).book
  | .defineInline name body => b.defineInline name body
  | .defineGlobal name body => b.defineGlobal name body
  | .setFlag name => b.setFlag name
  | .unsetFlag name => b.unsetFlag name
  | .clearFlags => b.clearFlags
  | .addLexicon lexicon => b.addLexicon lexicon
  | .addAnthology anthology => b.addAnthology anthology
  | .reshuffle factor g => (b.reshuffle factor g).book

def operateAll (b : Book) (operations : List Operation) : Book := operations.foldl operate b

variable {ι ε : Type} {disk : Disk ι} {decoder : Decoder ε}

variable {b : Book} {g : Generator} {request : Request} {operation : Operation}
  {operations before after : List Operation} {name body value : String}

/-- A request that is not for globals changes neither values nor definitions. -/
theorem answer_keeps (other : request ≠ .globals) :
    (b.answer g request).book.values = b.values ∧
      (b.answer g request).book.glossary = b.glossary := by
  cases answered b g request with
  | expansion text asked =>
    subst asked
    change (b.expand text).2.values = b.values ∧ (b.expand text).2.glossary = b.glossary
    unfold expand substitute
    cases b.clearNotices.definitions.expand text.toList <;> exact ⟨rfl, rfl⟩
  | pass p single book generator same =>
    obtain ⟨left, _⟩ := run_frame p
    rw [same]
    dsimp only [Reply.map]
    rw [left, book]
    exact ⟨rfl, rfl⟩
  | refusal e none_ silent same =>
    rw [same]
    exact ⟨rfl, rfl⟩
  | globals asked => contradiction

theorem reshuffle_keeps (b : Book) (factor : UInt32) (g : Generator) :
    (b.reshuffle factor g).book.values = b.values ∧
      (b.reshuffle factor g).book.glossary = b.glossary := by
  unfold reshuffle
  split <;> exact ⟨rfl, rfl⟩

theorem operate_define (b : Book) (name body : String) :
    (b.operate (.defineGlobal name body)).values[name]? = none :=
  Std.ExtTreeMap.getElem?_erase_self

theorem operate_keeps (quiet : ∀ g, operation ≠ .request g .globals)
    (other : ∀ body, operation ≠ .defineGlobal name body) :
    (b.operate operation).values[name]? = b.values[name]? ∧
      (b.operate operation).glossary.body? .global name = b.glossary.body? .global name := by
  cases operation with
  | request g request =>
    have asked : request ≠ .globals := by
      rintro rfl
      exact quiet g rfl
    obtain ⟨values, glossary⟩ := answer_keeps (b := b) (g := g) asked
    rw [operate, values, glossary]
    exact ⟨rfl, rfl⟩
  | defineGlobal defined body =>
    have different : defined ≠ name := by
      rintro rfl
      exact other body rfl
    constructor
    · exact (Std.ExtTreeMap.getElem?_erase).trans (if_neg (by simpa using different))
    · exact (Std.ExtTreeMap.getElem?_insert).trans (if_neg (by simpa using different))
  | reshuffle factor g =>
    obtain ⟨values, glossary⟩ := b.reshuffle_keeps factor g
    rw [operate, values, glossary]
    exact ⟨rfl, rfl⟩
  | defineInline | setFlag | unsetFlag | clearFlags | addLexicon | addAnthology =>
    exact ⟨rfl, rfl⟩

/-- As long as globals are not evaluated, a value and its body stay, or the value goes. -/
theorem operateAll_keeps (quiet : ∀ g, .request g .globals ∉ operations) (b : Book)
    (name : String) :
    ((∃ body, .defineGlobal name body ∈ operations) ∧
        (b.operateAll operations).values[name]? = none) ∨
      ((∀ body, .defineGlobal name body ∉ operations) ∧
        (b.operateAll operations).values[name]? = b.values[name]? ∧
        (b.operateAll operations).glossary.body? .global name = b.glossary.body? .global name) := by
  induction operations generalizing b with
  | nil => exact .inr ⟨nofun, rfl, rfl⟩
  | cons operation rest ih =>
    have calm : ∀ g, .request g .globals ∉ rest :=
      fun g member => quiet g (List.mem_cons_of_mem _ member)
    rcases ih calm (b.operate operation) with ⟨⟨body, member⟩, gone⟩ | ⟨absent, value, same⟩
    · exact .inl ⟨⟨body, List.mem_cons_of_mem _ member⟩, gone⟩
    · by_cases defines : ∃ body, operation = .defineGlobal name body
      · obtain ⟨body, rfl⟩ := defines
        exact .inl ⟨⟨body, List.mem_cons_self⟩, value.trans (b.operate_define name body)⟩
      · have other : ∀ body, operation ≠ .defineGlobal name body :=
          fun body equal => defines ⟨body, equal⟩
        have first : ∀ g, operation ≠ .request g .globals := by
          rintro g rfl
          exact quiet g List.mem_cons_self
        obtain ⟨value', same'⟩ := operate_keeps (b := b) first other
        refine .inr ⟨?_, value.trans value', same.trans same'⟩
        intro body member
        rcases List.mem_cons.mp member with here | later
        · exact other body here.symm
        · exact absent body later

theorem values_foldl {α : Type} (add : Book → α → Book)
    (kept : ∀ b a, (add b a).values = b.values) (items : List α) (b : Book) :
    (items.foldl add b).values = b.values := by
  induction items generalizing b with
  | nil => rfl
  | cons item items ih => exact (ih (add b item)).trans (kept b item)

theorem values_build {l : Library} (built : l.buildWith disk decoder = .ok b) : b.values = ∅ := by
  obtain ⟨lexicons, _, built⟩ := bind_eq_ok.mp built
  obtain ⟨anthologies, _, built⟩ := bind_eq_ok.mp built
  obtain ⟨definitions, _, built⟩ := bind_eq_ok.mp built
  cases built
  rw [values_foldl addAnthology fun _ _ => rfl, values_foldl addLexicon fun _ _ => rfl]

/-- Without an evaluation of all globals there are no values. -/
theorem exists_latest_of_value {l : Library} (built : l.buildWith disk decoder = .ok b)
    (known : (b.operateAll operations).globalValue? name = some value) :
    ∃ before g after, Latest operations before g after := by
  apply exists_latest
  by_contra never
  have quiet : ∀ g, .request g .globals ∉ operations := fun g member => never ⟨g, member⟩
  rw [globalValue?] at known
  rcases operateAll_keeps quiet b name with ⟨_, gone⟩ | ⟨_, kept, _⟩
  · rw [gone] at known
    contradiction
  · rw [kept, values_build built, Std.ExtTreeMap.getElem?_empty] at known
    contradiction

/-- Right after all globals have been evaluated, every value has come from its body by one of the
passes. -/
theorem evaluated_of_globals
    (known : (b.operate (.request g .globals)).values[name]? = some value) :
    Evaluated (b.operate (.request g .globals)).glossary (b.globalPasses g) name value := by
  have accounts := accounts_assignGlobals b g
  have same : (b.operate (.request g .globals)).glossary = b.glossary := accounts.glossary
  rw [same]
  rcases accounts.values name value known with old | evaluated
  · rw [Std.ExtTreeMap.getElem?_empty] at old
    contradiction
  · exact evaluated

theorem operateAll_latest (latest : Latest operations before g after) (b : Book) :
    b.operateAll operations =
      ((b.operateAll before).operate (.request g .globals)).operateAll after := by
  rw [latest.split]
  exact List.foldl_append

theorem evaluated_of_latest (latest : Latest operations before g after)
    (known : (b.operateAll operations).globalValue? name = some value) :
    Evaluated (b.operateAll operations).glossary ((b.operateAll before).globalPasses g) name
      value := by
  rw [operateAll_latest latest] at known ⊢
  rw [globalValue?] at known
  rcases operateAll_keeps latest.last _ name with ⟨_, gone⟩ | ⟨_, kept, same⟩
  · rw [gone] at known
    contradiction
  · rw [kept] at known
    obtain ⟨p, body, output, member, defined, rest⟩ := evaluated_of_globals known
    exact ⟨p, body, output, member, same.trans defined, rest⟩

theorem globalValue?_of_defined (latest : Latest operations before g after)
    (member : .defineGlobal name body ∈ after) (b : Book) :
    (b.operateAll operations).globalValue? name = none := by
  rw [operateAll_latest latest]
  rcases operateAll_keeps latest.last _ name with ⟨_, gone⟩ | ⟨absent, _⟩
  · exact gone
  · exact absurd member (absent body)

/-- Whatever is done with a phrasebook that was built, each value is that of a defined global, by a
pass over its present body in the last evaluation of all globals; and a global that has got a body
since then has no value. -/
theorem values_current {l : Library} (built : l.buildWith disk decoder = .ok b)
    (operations : List Operation) :
    (∀ name value, (b.operateAll operations).globalValue? name = some value →
        ∃ before g after, Latest operations before g after) ∧
      ∀ before g after, Latest operations before g after →
        (∀ name value, (b.operateAll operations).globalValue? name = some value →
          Evaluated (b.operateAll operations).glossary ((b.operateAll before).globalPasses g) name
            value) ∧
        ∀ name body, .defineGlobal name body ∈ after →
          (b.operateAll operations).globalValue? name = none := by
  constructor
  · intro name value known
    exact exists_latest_of_value built known
  · intro before g after latest
    constructor
    · intro name value known
      exact evaluated_of_latest latest known
    · intro name body member
      exact globalValue?_of_defined latest member b

/-- Two globals, and no bank. -/
def twoGlobals : Library where
  lexiconFolder := none
  anthologyFolder := none
  glossaryFile := none
  lexicons := []
  anthologies := []
  glossary := .ofList [⟨.global, "a", "x"⟩, ⟨.global, "b", "&[a]"⟩]
  lineBreak := defaultLineBreak
  depthLimit := defaultDepthLimit

/-- The value of a global that gets a new body is gone, also if another one had needed it. -/
theorem values_current_redefined :
    ∃ b, twoGlobals.buildWith Data.disk Data.decoder = .ok b ∧
      (b.operateAll [.request (Generator.ofSeed 7 0) .globals]).globalValue? "a" = some "x" ∧
      (b.operateAll [.request (Generator.ofSeed 7 0) .globals,
        .defineGlobal "a" "y"]).globalValue? "a" = none := by
  refine ⟨_, rfl, by cbv, ?_⟩
  have built : twoGlobals.buildWith Data.disk Data.decoder = .ok _ := rfl
  obtain ⟨_, current⟩ := values_current built
    [.request (Generator.ofSeed 7 0) .globals, .defineGlobal "a" "y"]
  have latest : Latest [.request (Generator.ofSeed 7 0) .globals, .defineGlobal "a" "y"] []
      (Generator.ofSeed 7 0) [.defineGlobal "a" "y"] := by
    refine ⟨rfl, ?_⟩
    intro g' member
    cases List.mem_singleton.mp member
  exact (current _ _ _ latest).2 "a" "y" List.mem_cons_self

end Book

end Phrasebook
