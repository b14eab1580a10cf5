import Phrasebook.Proofs.Spellings.Layout

/-! A modern call parses back from every layout.
The words of its body are the subtype, `of` with the words of the class list, and `for` with the
carrier; the parser takes them off in that order. -/
namespace Phrasebook.Call

open Letter (isBlank isBlank_of_isAlphanumeric)

variable {closing c : Char} {allowed : Char → Bool} {text rest : List Char}

theorem bracket_not_body : isBodyChar ']' = false := by decide +kernel

theorem block?_append (closed : allowed closing = false) (inside : ∀ c ∈ text, allowed c = true) :
    block? closing allowed (text ++ closing :: rest) = some (text, rest) := by
  induction text with
  | nil => rw [List.nil_append, block?, if_pos rfl]
  | cons c text ih =>
    obtain ⟨here, later⟩ := List.forall_mem_cons.mp inside
    have other : c ≠ closing := by
      rintro rfl
      rw [closed] at here
      contradiction
    rw [List.cons_append, block?, if_neg other, if_pos here, ih later]
    rfl

theorem takeClasses_introduced (classes? : Option (List (List Char)))
    (carrier? : Option (List Char))
    (kept : ∀ classes ∈ classes?, ∀ word ∈ classes, word ≠ forWord) :
    takeClasses (classes?.elim [] (ofWord :: ·) ++ introduced forWord carrier?) =
      (classes?, introduced forWord carrier?) := by
  cases classes? with
  | none => cases carrier? <;> rfl
  | some classes =>
    have class_word : ∀ word ∈ classes, (word != forWord) = true :=
      fun word member => bne_iff_ne.mpr (kept classes rfl word member)
    have taken : (classes ++ introduced forWord carrier?).takeWhile (· != forWord) = classes := by
      rw [List.takeWhile_append_of_pos class_word]
      cases carrier? <;> simp [introduced]
    have left : (classes ++ introduced forWord carrier?).dropWhile (· != forWord) =
        introduced forWord carrier? := by
      rw [List.dropWhile_append_of_pos class_word]
      cases carrier? <;> simp [introduced]
    rw [Option.elim_some, List.cons_append, takeClasses, if_pos rfl, taken, left]

/-- The subtype ends at the first word that is `of` or `for`. -/
theorem span_subtype {subtype : List Char} (not_of : subtype ≠ ofWord) (not_for : subtype ≠ forWord)
    (classes? : Option (List (List Char))) (carrier? : Option (List Char)) :
    let words := (if subtype = [] then [] else [subtype]) ++
      (classes?.elim [] (ofWord :: ·) ++ introduced forWord carrier?)
    words.takeWhile (fun word => word != ofWord && word != forWord) =
        (if subtype = [] then [] else [subtype]) ∧
      words.dropWhile (fun word => word != ofWord && word != forWord) =
        classes?.elim [] (ofWord :: ·) ++ introduced forWord carrier? := by
  have named : ∀ word ∈ if subtype = [] then [] else [subtype],
      (word != ofWord && word != forWord) = true := by
    split <;> simp [not_of, not_for]
  intro words
  rw [List.takeWhile_append_of_pos named, List.dropWhile_append_of_pos named]
  cases classes? <;> cases carrier? <;> simp [introduced]

theorem ofWords?_parts {subtype : List Char} {classes? : Option (List (List Char))}
    {carrier? : Option (List Char)} (not_of : subtype ≠ ofWord) (not_for : subtype ≠ forWord)
    (whole : ',' ∉ subtype)
    (listed : ∀ classes ∈ classes?, classes ≠ [] ∧ joined classes = true ∧
      ∀ word ∈ classes, word ≠ forWord)
    (carried : ∀ carrier ∈ carrier?, ',' ∉ carrier) :
    Parts.ofWords? ((if subtype = [] then [] else [subtype]) ++
        (classes?.elim [] (ofWord :: ·) ++ introduced forWord carrier?)) =
      some ⟨subtype, (classes?.getD []).flatten, carrier?⟩ := by
  obtain ⟨subtype_taken, subtype_dropped⟩ := span_subtype not_of not_for classes? carrier?
  have classes_taken := takeClasses_introduced classes? carrier?
    fun classes member => (listed classes member).2.2
  rw [Parts.ofWords?]
  simp only [subtype_taken, subtype_dropped, classes_taken]
  have named : ((if subtype = [] then [] else [subtype]) : List (List Char)).flatten = subtype := by
    split <;> simp_all
  have single : ((if subtype = [] then [] else [subtype]).length ≤ 1 &&
      (if subtype = [] then [] else [subtype]).all (!·.contains ',')) = true := by
    split <;> simp [whole]
  have joins : (classes?.all fun classes => !classes.isEmpty && joined classes) = true := by
    cases classes? with
    | none => rfl
    | some classes => simp [(listed classes rfl).1, (listed classes rfl).2.1]
  rw [single, joins, named]
  cases carrier? with
  | none => simp [introduced]
  | some carrier => simp [introduced, carried carrier rfl]

namespace Modern

variable (call : Modern) (layout : Layout)

theorem words_body : Text.words (call.body layout) =
    (if call.subtype = [] then [] else [call.subtype]) ++
      (((call.classText layout).map Text.words).elim [] (ofWord :: ·) ++
        introduced forWord call.carrierText) := by
  have subtype : call.subtypePart.flatMap Text.words =
      if call.subtype = [] then [] else [call.subtype] := by
    rw [subtypePart]
    split
    · rfl
    · rename_i present
      have solid := fun c member => isBlank_of_isNameChar (call.named c member)
      rw [List.flatMap_singleton, Text.words_of_solid present solid]
  have classes : (introduced ofWord (call.classText layout)).flatMap Text.words =
      ((call.classText layout).map Text.words).elim [] (ofWord :: ·) := by
    cases call.classText layout with
    | none => rfl
    | some text =>
      have word : Text.words ofWord = [ofWord] := by decide
      simp [introduced, word]
  have carrier : (introduced forWord call.carrierText).flatMap Text.words =
      introduced forWord call.carrierText := by
    rw [carrierText]
    cases call.carrier with
    | none => rfl
    | some name =>
      have word : Text.words forWord = [forWord] := by decide
      simp [introduced, word, Text.words_of_solid name.present name.solid]
  rw [body, words_between, words_spaced, List.flatMap_append, List.flatMap_append, subtype, classes,
    carrier]

theorem classText_cons {name : Name} {names : List Name} (h : call.classes = name :: names) :
    call.classText layout = some (commaed layout.before layout.after (name :: names)) := by
  rw [classText, h]
  rfl

theorem words_classText {classes : List (List Char)}
    (h : classes ∈ (call.classText layout).map Text.words) :
    classes ≠ [] ∧ joined classes = true ∧ ∀ word ∈ classes, word ≠ forWord := by
  cases listed : call.classes with
  | nil => simp [classText, listed] at h
  | cons name names =>
    rw [call.classText_cons layout listed, Option.map_some, Option.mem_some_iff] at h
    subst h
    have kept := call.class_ne_for
    rw [listed] at kept
    have joins := words_commaed layout.before layout.after name names kept
    obtain ⟨c, rest, starts, solid⟩ := commaed_solid layout.before layout.after name names
    obtain ⟨word, others, found⟩ := Text.words_solid solid rest
    refine ⟨?_, joins.joined, joins.kept⟩
    rw [starts, found]
    exact List.cons_ne_nil _ _

theorem flatten_classText :
    (((call.classText layout).map Text.words).getD []).flatten =
      [','].intercalate call.classNames := by
  cases listed : call.classes with
  | nil => simp [classText, classNames, listed]
  | cons name names =>
    have kept := call.class_ne_for
    rw [listed] at kept
    rw [call.classText_cons layout listed, classNames, listed]
    exact (words_commaed layout.before layout.after name names kept).flat

theorem forall_mem_body : ∀ c ∈ call.body layout, isBodyChar c = true := by
  have lead := fun c member => isBodyChar_of_isBlank (layout.lead.blank c member)
  have trail := fun c member => isBodyChar_of_isBlank (layout.trail.blank c member)
  have subtype : ∀ part ∈ call.subtypePart, ∀ c ∈ part, isBodyChar c = true := by
    rw [subtypePart]
    split
    · exact fun part member => absurd member List.not_mem_nil
    · intro part member c inside
      rw [List.mem_singleton.mp member] at inside
      exact isBodyChar_of_isNameChar (call.named c inside)
  have classes : ∀ part ∈ introduced ofWord (call.classText layout), ∀ c ∈ part,
      isBodyChar c = true := by
    rw [classText]
    split
    · exact fun part member => absurd member List.not_mem_nil
    · have word : ∀ c ∈ ofWord, isBodyChar c = true := List.all_eq_true.mp (by decide +kernel)
      have text := forall_mem_commaed layout.before layout.after call.classes
      simpa [introduced] using ⟨word, text⟩
  have carrier : ∀ part ∈ introduced forWord call.carrierText, ∀ c ∈ part,
      isBodyChar c = true := by
    rw [carrierText]
    cases call.carrier with
    | none => exact fun part member => absurd member List.not_mem_nil
    | some name =>
      have word : ∀ c ∈ forWord, isBodyChar c = true := List.all_eq_true.mp (by decide +kernel)
      have text := fun c member => isBodyChar_of_isNameChar (name.named c member)
      simpa [introduced] using ⟨word, text⟩
  have parts : ∀ part ∈ call.subtypePart ++ (introduced ofWord (call.classText layout) ++
      introduced forWord call.carrierText), ∀ c ∈ part, isBodyChar c = true := by
    simp only [List.forall_mem_append]
    exact ⟨subtype, classes, carrier⟩
  rw [body]
  simp only [List.forall_mem_append]
  exact ⟨lead, forall_mem_spaced layout.gap _ parts, trail⟩

theorem comma_not_mem_subtype : ',' ∉ call.subtype := by
  intro member
  have := call.named ',' member
  rw [comma_not_name] at this
  contradiction

theorem ofWords?_body :
    Parts.ofWords? (Text.words (call.body layout)) =
      some ⟨call.subtype, [','].intercalate call.classNames, call.carrierText⟩ := by
  have carried : ∀ carrier ∈ call.carrierText, ',' ∉ carrier := by
    intro carrier h
    obtain ⟨name, _, rfl⟩ := Option.map_eq_some_iff.mp h
    exact name.comma_not_mem
  rw [words_body, ofWords?_parts call.subtype_ne_of call.subtype_ne_for call.comma_not_mem_subtype
    (fun classes h => call.words_classText layout h) carried, flatten_classText]

theorem modern?_print (rest : List Char) :
    modern? (call.symbol :: '[' :: (call.body layout ++ ']' :: rest)) =
      some (call.meaning (call.print layout).length) := by
  have found : block? ']' isBodyChar (call.body layout ++ ']' :: rest) =
      some (call.body layout, rest) :=
    block?_append bracket_not_body (call.forall_mem_body layout)
  have size : (call.print layout).length = (call.body layout).length + 4 := by
    simp [print]
  rw [modern?, if_pos call.symbolic, found, size]
  simp only [bind, pure, Option.bind_some, ofWords?_body]
  rfl

theorem classList?_meaning (length : Nat) :
    (call.meaning length).classList? =
      if 2 ≤ call.classes.length then some (call.classNames.map String.ofList) else none := by
  have text : (call.meaning length).className.toList = [','].intercalate call.classNames :=
    String.toList_ofList
  rw [classList?]
  simp only [text]
  have whole : ∀ part ∈ call.classNames, ',' ∉ part := by
    rintro _ member
    obtain ⟨name, _, rfl⟩ := List.mem_map.mp member
    exact name.comma_not_mem
  match listed : call.classes with
  | [] => simp [classNames, listed]
  | [name] => simp [classNames, listed, name.comma_not_mem]
  | name :: next :: names =>
    have several : call.classNames ≠ [] := by simp [classNames, listed]
    have comma : ([','].intercalate call.classNames).contains ',' = true := by
      simp [classNames, listed, List.intercalate_cons_cons]
    have trimmed : call.classNames.map Text.trim = call.classNames := by
      refine (List.map_congr_left ?_).trans (List.map_id _)
      rintro _ member
      obtain ⟨name, _, rfl⟩ := List.mem_map.mp member
      exact Text.trim_eq_self name.solid
    have present : call.classNames.filter (· ≠ []) = call.classNames := by
      rw [List.filter_eq_self]
      rintro _ member
      obtain ⟨name, _, rfl⟩ := List.mem_map.mp member
      simpa using name.present
    rw [if_pos comma, if_pos (by simp), Text.pieces_intercalate several whole, trimmed, present]

/-- In every layout a modern call parses back to what it says, whatever follows, and the list of its
classes is read as they were written if there are several. -/
theorem parse?_print (rest : List Char) :
    parse? (call.print layout ++ rest) = some (call.meaning (call.print layout).length) ∧
    (call.meaning (call.print layout).length).classList? =
      if 2 ≤ call.classes.length then some (call.classNames.map String.ofList) else none := by
  constructor
  · have text : call.print layout ++ rest =
        '+' :: call.symbol :: '[' :: (call.body layout ++ ']' :: rest) := by
      simp [print]
    rw [text, parse?, modern?_print]
    rfl
  · exact call.classList?_meaning _

/-- A call with words that look like `of` and `for` where they are not. -/
def keywords : Modern where
  symbol := 'n'
  subtype := "adj".toList
  classes :=
    [⟨"of".toList, by decide, List.all_eq_true.mp (by decide)⟩,
      ⟨"for1".toList, by decide, List.all_eq_true.mp (by decide)⟩,
      ⟨"a".toList, by decide, List.all_eq_true.mp (by decide)⟩]
  carrier := some ⟨"for".toList, by decide, List.all_eq_true.mp (by decide)⟩
  symbolic := by decide
  named := List.all_eq_true.mp (by decide)
  subtype_ne_of := by decide
  subtype_ne_for := by decide
  class_ne_for := by decide

/-- One comma stands close to its classes, and the others have a space before them. -/
def closeFirst : Layout where
  lead := .none
  trail := .space
  gap := fun _ => ⟨.space, by decide⟩
  before
    | 0 => .none
    | _ + 1 => .space
  after := fun _ => .none

theorem parse?_print_keywords :
    keywords.print closeFirst = "+n[adj of of,for1 ,a for for ]".toList ∧
      ∃ call, parse? "+n[adj of of,for1 ,a for for ] of".toList = some call ∧
        call = ⟨'n', "adj", "of,for1,a", some "for", 30⟩ ∧
        call.classList? = some ["of", "for1", "a"] := by
  obtain ⟨parsed, listed⟩ := parse?_print keywords closeFirst " of".toList
  exact ⟨by decide, _, parsed, by decide, listed⟩

end Modern

end Phrasebook.Call
