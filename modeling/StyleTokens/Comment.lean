/-
Comments in a text.

Three forms count as comments: from `/*` to `*/`, from `<!--` to `-->`, and
from `//` to the end of the line.  Whichever opens first holds, no form is
recognized inside another, and one that is never closed lasts to the end of the
text.  A `//` within an address counts too.

* `Comment.spans` — the comments of a text as byte spans, in order.

Design notes: the text is read once, character by character.  The characters of
an opener are passed before its closer is looked for, so `/*/` is still open.
-/
import StyleTokens.Text.Bytes

namespace StyleTokens.Comment

/-- The forms of comments. -/
inductive Form
  | block
  | markup
  | line
  deriving DecidableEq, Repr, Inhabited

namespace Form

/-- How a comment of the form begins. -/
def opener : Form → List Char
  | block => ['/', '*']
  | markup => ['<', '!', '-', '-']
  | line => ['/', '/']

/-- How a comment of the form ends. -/
def closer : Form → List Char
  | block => ['*', '/']
  | markup => ['-', '-', '>']
  | line => ['\n']

/-- The part of the closer that belongs to the comment: all of it, but not the
end of a line. -/
def closed : Form → Nat
  | block => 2
  | markup => 3
  | line => 0

/-- All forms; no opener begins another. -/
def all : List Form :=
  [block, markup, line]

end Form

/-- The form that opens at the start of a text. -/
def opening? (text : List Char) : Option Form :=
  Form.all.find? fun form => form.opener.isPrefixOf text

/-- The comments from an offset on.  `current` is the comment that is open, with
the offset of its opener; `skip` counts the characters that an opener or closer
still takes. -/
def spansFrom : (current : Option (Form × Nat)) → (skip offset : Nat) → List Char → List Span
  | none, _, _, [] => []
  | some (_, start), _, offset, [] => [⟨start, offset⟩]
  | current, skip + 1, offset, c :: rest => spansFrom current skip (offset + c.utf8Size) rest
  | none, 0, offset, c :: rest =>
    match opening? (c :: rest) with
    | some form =>
      spansFrom (some (form, offset)) (form.opener.length - 1) (offset + c.utf8Size) rest
    | none => spansFrom none 0 (offset + c.utf8Size) rest
  | some (form, start), 0, offset, c :: rest =>
    if form.closer.isPrefixOf (c :: rest) then
      ⟨start, offset + form.closed⟩ ::
        spansFrom none (form.closer.length - 1) (offset + c.utf8Size) rest
    else
      spansFrom (some (form, start)) 0 (offset + c.utf8Size) rest

/-- The comments of a text, in order. -/
def spans (text : List Char) : List Span :=
  spansFrom none 0 0 text

end StyleTokens.Comment
