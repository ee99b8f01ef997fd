/-
Scripts that edit texts line by line.

* `Editing.Address`, `Editing.Selection` — the lines that an instruction is for;
* `Editing.Substitution` — what is put in the place of matches;
* `Editing.Instruction` — an instruction and the lines that it is for;
* `Editing.Script` — instructions one after another;
* `Editing.Piece.join` — the pieces of a replacement as a text.

Design notes: a block is an instruction that goes on behind the block if the line is not
one of its own, and the end of the block is an instruction that does nothing.
-/
import StyleTokens.Shell.Expression

namespace StyleTokens.Shell.Editing

/-- An expression that is looked for; none is the last one that was looked for. -/
structure Needle where
  expression : Option Expression
  folded : Bool := false
  /-- Whether the ends of lines count as ends of the text. -/
  byLine : Bool := false
  deriving Inhabited

/-- Which lines are meant. -/
inductive Address
  | line (number : Nat)
  /-- One line, and from it on every one at a distance. -/
  | every (first step : Nat)
  | last
  | found (needle : Needle)

/-- Where a range of lines ends. -/
inductive Limit
  | address (address : Address)
  /-- So many lines after the first one. -/
  | lines (count : Nat)
  /-- At the next line whose number is a multiple. -/
  | multiple (divisor : Nat)

/-- The lines that an instruction is for. -/
structure Selection where
  first : Option Address := none
  limit : Option Limit := none
  /-- Whether all other lines are meant. -/
  inverted : Bool := false

/-- How letters are changed. -/
inductive Casing
  | upper
  | lower
  | same
  deriving DecidableEq, Repr, Inhabited

/-- A piece of a replacement. -/
inductive Piece
  | text (signs : List Char)
  /-- What a group matched, or the match itself. -/
  | group (number : Nat)
  /-- Changes the letters from here on. -/
  | casing (casing : Casing)
  /-- Changes the next letter. -/
  | next (casing : Casing)
  deriving Repr, Inhabited

/-- What is put in the place of matches. -/
structure Substitution where
  needle : Needle
  replacement : List Piece
  /-- The number of the first match that is replaced. -/
  from_ : Nat
  /-- Whether those behind it are replaced too. -/
  all : Bool
  prints : Bool
  /-- The file that lines with a replacement are written to. -/
  output : Option String

/-- What an instruction does. -/
inductive Action
  /-- Goes on at the number of an instruction if the line is none of the block. -/
  | block (stop : Nat)
  | nothing
  | append (text : List Char)
  | insert (text : List Char)
  | change (text : List Char)
  | jump (label : String)
  /-- Goes on at a label if something was replaced, or if nothing was. -/
  | jumpIf (replaced : Bool) (label : String)
  | delete
  | deleteLine
  | print
  | printLine
  | number
  | name
  | show (width : Option Nat)
  | next
  | nextAppended
  | quit (status : Nat) (prints : Bool)
  | get (appended : Bool)
  | hold (appended : Bool)
  | exchange
  | empty
  | substitute (substitution : Substitution)
  | translate (signs : List (Char × Char))
  | readFile (path : String)
  | readLine (path : String)
  | write (path : String)
  | writeLine (path : String)

/-- An instruction and the lines that it is for. -/
structure Instruction where
  selection : Selection
  action : Action

/-- Instructions one after another. -/
structure Script where
  instructions : Array Instruction := #[]
  /-- The numbers of the instructions behind labels. -/
  labels : List (String × Nat) := []
  /-- Whether lines are shown only if an instruction says so. -/
  silent : Bool := false
  /-- What stands in front of a complaint while the script is carried out. -/
  place : String := ""

/-- A sign with its letters changed. -/
def Casing.apply (c : Char) : Casing → Char
  | .upper => c.toUpper
  | .lower => c.toLower
  | .same => c

/-- A text with its letters changed: the first sign in its own way, if there is one. -/
def Casing.applyAll (first : Option Casing) (all : Casing) : List Char → List Char
  | [] => []
  | c :: rest => (first.getD all).apply c :: rest.map all.apply

/-- The pieces of a replacement as a text, given what the groups matched. -/
def Piece.join (groups : Nat → List Char) (first : Option Casing) (all : Casing) :
    List Piece → List Char
  | [] => []
  | .casing other :: rest => join groups none other rest
  | .next other :: rest => join groups (some other) all rest
  | .text signs :: rest =>
    if signs.isEmpty then join groups first all rest
    else Casing.applyAll first all signs ++ join groups none all rest
  | .group number :: rest =>
    let signs := groups number
    if signs.isEmpty then join groups first all rest
    else Casing.applyAll first all signs ++ join groups none all rest

end StyleTokens.Shell.Editing
