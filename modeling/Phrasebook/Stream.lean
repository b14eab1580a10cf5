/-! One stream of text.
It is kept from its end backwards, because text is added at the end and an insertion falls close to
it. Offsets count the bytes of the UTF-8 form. -/
namespace Phrasebook

def byteCount : List Char → Nat
  | [] => 0
  | c :: text => c.utf8Size + byteCount text

theorem byteCount_append (front rest : List Char) :
    byteCount (front ++ rest) = byteCount front + byteCount rest := by
  induction front with
  | nil => simp [byteCount]
  | cons c front ih => simp [byteCount, ih, Nat.add_assoc]

structure Stream where
  /-- The last character first. -/
  reversed : List Char
  size : Nat
  size_eq : size = byteCount reversed

namespace Stream

def empty : Stream := ⟨[], 0, rfl⟩

def text (s : Stream) : String := String.ofList s.reversed.reverse

def put (s : Stream) (c : Char) : Stream where
  reversed := c :: s.reversed
  size := c.utf8Size + s.size
  size_eq := by simp [byteCount, s.size_eq]

def write (s : Stream) (text : String) : Stream := text.toList.foldl put s

/-- Takes so many bytes off the end of a reversed text and puts them in reading order before
`after`. It fails where that falls inside a character or the text is too short. -/
def unwind (after : List Char) : Nat → List Char → Option (List Char × List Char)
  | 0, reversed => some (reversed, after)
  | _ + 1, [] => none
  | n + 1, c :: reversed =>
    if c.utf8Size ≤ n + 1 then unwind (c :: after) (n + 1 - c.utf8Size) reversed else none

theorem byteCount_of_unwind {after reversed before rest : List Char} {n : Nat}
    (h : unwind after n reversed = some (before, rest)) :
    byteCount before + n = byteCount reversed := by
  fun_induction unwind after n reversed with
  | case1 => simp_all
  | case2 => simp at h
  | case3 _ _ _ _ fits ih =>
    have := ih h
    simp only [byteCount] at this ⊢
    omega
  | case4 => simp at h

/-- Puts text in at an offset. Past the end and inside a character nothing happens. -/
def splice (s : Stream) (offset : Nat) (insertion : String) : Stream :=
  if inside : offset ≤ s.size then
    match h : unwind [] (s.size - offset) s.reversed with
    | some (before, after) =>
      let start : Stream := ⟨before, offset, by
        have := byteCount_of_unwind h
        have := s.size_eq
        omega⟩
      after.foldl put (start.write insertion)
    | none => s
  else s

theorem reversed_foldl_put (s : Stream) (text : List Char) :
    (text.foldl put s).reversed = text.reverse ++ s.reversed := by
  induction text generalizing s with
  | nil => rfl
  | cons c rest ih => simp [ih, put]

theorem text_write (s : Stream) (text : String) : (s.write text).text = s.text ++ text := by
  simp [Stream.text, write, reversed_foldl_put]

end Stream

end Phrasebook
