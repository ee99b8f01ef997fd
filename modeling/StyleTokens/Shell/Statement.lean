/-
Shell commands as trees.

* `Piece` — a part of a word: text, or what stands for a text;
* `Redirect` — where a stream is taken from or sent to;
* `Statement` — a command, simple or compound.

Design notes: all texts are octet texts (`Octets`).  A word is a list of pieces, and
a piece knows whether it stood within quotes, because a quoted text is never cut
into fields.
-/
namespace StyleTokens.Shell

/-- What a parameter in braces does besides giving its text. -/
inductive Modifier
  /-- Another text if there is none. -/
  | default
  /-- Another text if there is none, which is also assigned. -/
  | assign
  /-- A failure if there is none. -/
  | demand
  /-- Another text if there is one. -/
  | alternative
  | cutStart (longest : Bool)
  | cutEnd (longest : Bool)
  deriving DecidableEq, Repr, Inhabited

/-- What a redirection does with its target. -/
inductive RedirectKind
  | read
  | write
  /-- Writes even where files are protected. -/
  | clobber
  | append
  | readWrite
  /-- Makes a stream the same as another one. -/
  | same
  /-- Takes the text of the target itself. -/
  | text
  deriving DecidableEq, Repr, Inhabited

mutual

/-- A part of a word. -/
inductive Piece
  /-- Signs that stand for themselves. -/
  | text (quoted : Bool) (value : List Char)
  /-- A quotation mark, which makes a field even of nothing. -/
  | mark
  /-- A parameter; the flag of a modifier says that an empty text counts as none. -/
  | parameter (quoted : Bool) (name : String)
      (modifier : Option (Modifier × Bool × List Piece))
  /-- The number of signs of a parameter. -/
  | size (quoted : Bool) (name : String)
  /-- The output of commands. -/
  | output (quoted : Bool) (body : Statement)
  /-- The value of an expression. -/
  | arithmetic (quoted : Bool) (expression : List Piece)
  /-- Something that is refused when it is reached. -/
  | bad

/-- A redirection of a stream. -/
inductive Redirect
  | mk (kind : RedirectKind) (stream : Nat) (target : List Piece)

/-- A command. -/
inductive Statement
  | skip
  | simple (line : Nat) (assignments : List (String × List Piece)) (words : List (List Piece))
      (redirects : List Redirect)
  | pipeline (stages : List Statement)
  | negated (body : Statement)
  | both (first second : Statement)
  | either (first second : Statement)
  | sequence (first second : Statement)
  | background (line : Nat) (body : Statement)
  | subshell (line : Nat) (body : Statement) (redirects : List Redirect)
  | choice (condition yes no : Statement)
  /-- Repeats while the condition holds, or until it does. -/
  | loop (inverted : Bool) (condition body : Statement)
  /-- Runs for every word, or every argument. -/
  | each (line : Nat) (name : String) (words : Option (List (List Piece))) (body : Statement)
  | cases (line : Nat) (subject : List Piece) (arms : List (List (List Piece) × Statement))
  | define (line : Nat) (name : String) (body : Statement)
  | redirected (line : Nat) (body : Statement) (redirects : List Redirect)

end

instance : Inhabited Piece := ⟨.bad⟩
instance : Inhabited Redirect := ⟨.mk .read 0 []⟩
instance : Inhabited Statement := ⟨.skip⟩

/-- A word. -/
abbrev Word := List Piece

/-- The text of a word without quotes and expansions. -/
def Word.plain? (word : Word) : Option String :=
  let text? : Piece → Option (List Char)
    | .text false value => some value
    | _ => none
  (word.mapM text?).map fun texts => String.ofList texts.flatten

/-- Whether a part of a word is quoted. -/
def Word.isQuoted (word : Word) : Bool :=
  word.any fun
    | .text quoted _ => quoted
    | .mark => true
    | _ => false

/-- The signs of a word that stand for themselves. -/
def Word.signs (word : Word) : List Char :=
  word.flatMap fun
    | .text _ value => value
    | _ => []

/-- Letters that a name of a parameter begins with. -/
def isNameStart (c : Char) : Bool :=
  c.isAlpha || c = '_'

/-- Signs of names of parameters. -/
def isNameSign (c : Char) : Bool :=
  c.isAlphanum || c = '_'

/-- Whether a text is the name of a variable. -/
def isName (text : List Char) : Bool :=
  (text.head?.map isNameStart).getD false && text.all isNameSign

/-- The name and the value of a word that assigns; `name` is what was read of the
name. -/
def assignment? (name : List Char) : Word → Option (String × Word)
  | .text false [] :: rest => assignment? name rest
  | .text false (c :: value) :: rest =>
    if c = '=' then
      if isName name then some (String.ofList name, .text false value :: rest) else none
    else assignment? (name ++ [c]) (.text false value :: rest)
  | _ => none
termination_by word => sizeOf word

end StyleTokens.Shell
