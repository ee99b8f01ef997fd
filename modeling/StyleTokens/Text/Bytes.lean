/-
Offsets into a text, counted in bytes of its UTF-8 form.

* `Span` — a half-open range of byte offsets;
* `byteLength`, `dropBytes`, `takeBytes`, `slice` — a text seen through such
  offsets;
* `keepTail` — the longest end of a text that fits a number of bytes.

Main statements: `byteLength_append`, `dropBytes_byteLength` and
`takeBytes_byteLength` — cutting at a character boundary gives back the two
parts.  An offset inside a character counts as the boundary after it.
-/
namespace StyleTokens

/-- The byte offsets from `start` up to, not including, `stop`. -/
structure Span where
  start : Nat
  stop : Nat
  deriving DecidableEq, Repr, Inhabited

namespace Span

/-- Number of bytes covered. -/
def length (span : Span) : Nat :=
  span.stop - span.start

/-- Two spans overlap when each starts before the other ends; spans that only
touch do not. -/
def overlaps (a b : Span) : Bool :=
  a.start < b.stop && b.start < a.stop

/-- Whether the span overlaps one of a list. -/
def overlapsAny (span : Span) (others : List Span) : Bool :=
  others.any span.overlaps

end Span

namespace Text

/-- Bytes of the UTF-8 form. -/
def byteLength : List Char → Nat
  | [] => 0
  | c :: rest => c.utf8Size + byteLength rest

/-- The text from a byte offset on. -/
def dropBytes : Nat → List Char → List Char
  | _, [] => []
  | n, c :: rest => if n = 0 then c :: rest else dropBytes (n - c.utf8Size) rest

/-- The text before a byte offset. -/
def takeBytes : Nat → List Char → List Char
  | _, [] => []
  | n, c :: rest => if n = 0 then [] else c :: takeBytes (n - c.utf8Size) rest

/-- The part of the text that a span covers. -/
def slice (span : Span) (text : List Char) : List Char :=
  takeBytes span.length (dropBytes span.start text)

/-- The longest end of the text that takes at most `limit` bytes. -/
def keepTail (limit : Nat) (text : List Char) : List Char :=
  dropBytes (byteLength text - limit) text

@[simp] theorem byteLength_nil : byteLength [] = 0 := rfl

@[simp] theorem byteLength_append (a b : List Char) :
    byteLength (a ++ b) = byteLength a + byteLength b := by
  induction a with
  | nil => simp
  | cons c a ih => simp [byteLength, ih, Nat.add_assoc]

@[simp] theorem dropBytes_zero (text : List Char) : dropBytes 0 text = text := by
  cases text <;> simp [dropBytes]

@[simp] theorem takeBytes_zero (text : List Char) : takeBytes 0 text = [] := by
  cases text <;> simp [takeBytes]

theorem takeBytes_append_dropBytes (n : Nat) (text : List Char) :
    takeBytes n text ++ dropBytes n text = text := by
  induction text generalizing n with
  | nil => simp [takeBytes, dropBytes]
  | cons c text ih => by_cases h : n = 0 <;> simp [takeBytes, dropBytes, h, ih]

@[simp] theorem dropBytes_byteLength (a b : List Char) :
    dropBytes (byteLength a) (a ++ b) = b := by
  induction a with
  | nil => simp
  | cons c a ih =>
    have hc := c.utf8Size_pos
    rw [List.cons_append, byteLength, dropBytes, if_neg (by omega), Nat.add_sub_cancel_left, ih]

@[simp] theorem takeBytes_byteLength (a b : List Char) :
    takeBytes (byteLength a) (a ++ b) = a := by
  induction a with
  | nil => simp
  | cons c a ih =>
    have hc := c.utf8Size_pos
    rw [List.cons_append, byteLength, takeBytes, if_neg (by omega), Nat.add_sub_cancel_left, ih]

end Text

end StyleTokens
