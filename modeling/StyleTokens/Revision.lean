/-
Revising a text by a rule set.

Each rule in turn searches the text as the rules before it left it.  What it
finds it claims, whether it changes it or not, and later rules leave claimed
text alone.  A literal with a token is replaced by it; a literal without one is
counted; what touches a comment is left as it is.

* `Rule.hits` — the matches that a rule may claim;
* `Treatment` — what becomes of one literal;
* `splice` and `relocate` — what a list of edits does to a text and to an
  offset in it;
* `RuleSet.revise` — the text after all rules, with a tally per rule.

Design notes: the text is a list of characters and all offsets count bytes.
The edits of a rule are made at once, from left to right.
-/
import StyleTokens.Comment
import StyleTokens.Count
import StyleTokens.Rule

namespace StyleTokens

/-- A match that a rule may claim. -/
structure Hit where
  span : Span
  value : Span
  literal : List Char
  deriving DecidableEq, Repr, Inhabited

/-- A part of a text to be exchanged. -/
structure Edit where
  span : Span
  text : List Char
  deriving DecidableEq, Repr, Inhabited

/-- The text after edits, which stand in order; `offset` is where it begins. -/
def splice : (offset : Nat) → List Edit → List Char → List Char
  | _, [], text => text
  | offset, edit :: edits, text =>
    Text.takeBytes (edit.span.start - offset) text ++ edit.text ++
      splice edit.span.stop edits (Text.dropBytes (edit.span.stop - offset) text)

/-- Where an offset lies after edits: those that end at it or before move it. -/
def relocate (edits : List Edit) (offset : Nat) : Nat :=
  let earlier := edits.filter (·.span.stop ≤ offset)
  offset + Count.total (earlier.map (Text.byteLength ·.text)) -
    Count.total (earlier.map (·.span.length))

/-- Where a span lies after edits. -/
def Span.relocate (edits : List Edit) (span : Span) : Span :=
  ⟨StyleTokens.relocate edits span.start, StyleTokens.relocate edits span.stop⟩

/-- Whether what follows a value ends it. -/
def endsValue : Option Char → Bool
  | none => true
  | some c => Text.isBlank c || [';', '\x7d', '!', '"', '\'', ')', ','].contains c

/-- The matches of a rule with a value that is not blank, that end where a value
may end and that overlap no claim. -/
def Rule.hits (rule : Rule) (claims : List Span) (text : List Char) : List Hit :=
  (rule.program.occurrences text).filterMap fun found => do
    let value ← found.capture? valueGroup
    let literal := Text.slice value text
    if Text.allBlank literal || found.span.overlapsAny claims then none
    else if endsValue (Text.dropBytes value.stop text).head? then some ⟨found.span, value, literal⟩
    else none

/-- What becomes of a part of a value. -/
inductive Treatment
  /-- White space, or a zero that needs no token. -/
  | kept
  | mapped (token : List Char)
  /-- A literal without a token, named without the white space around it. -/
  | unmapped (literal : String)
  deriving DecidableEq, Repr, Inhabited

namespace Treatment

/-- How a part of a value is treated. -/
def ofPart (table : TokenTable) (category : Category) (part : List Char) : Treatment :=
  if Text.allBlank part then kept
  else
    match table.lookup? category part with
    | some token => mapped token.toList
    | none =>
      if Literal.isNeutralZero category.kind part then kept
      else unmapped (String.ofList (Text.trim part))

/-- The token that replaces a part. -/
def token? : Treatment → Option (List Char)
  | mapped token => some token
  | _ => none

/-- The literal that has no token. -/
def unmapped? : Treatment → Option String
  | unmapped literal => some literal
  | _ => none

end Treatment

/-- A value part by part. -/
structure Substitution where
  parts : List (List Char × Treatment)
  deriving DecidableEq, Repr, Inhabited

namespace Substitution

/-- What a rule makes of a value. -/
def ofValue (table : TokenTable) (rule : Rule) (value : List Char) : Substitution :=
  let parts := if rule.splitValues then Text.runs value else [value]
  ⟨parts.map fun part => (part, .ofPart table rule.category part)⟩

/-- The value with tokens in place of the literals that have one. -/
def text (s : Substitution) : List Char :=
  (s.parts.map fun (part, treatment) => treatment.token?.getD part).flatten

/-- The number of tokens. -/
def replaced (s : Substitution) : Nat :=
  (s.parts.filterMap (·.2.token?)).length

/-- The literals without a token, in order. -/
def unmapped (s : Substitution) : List String :=
  s.parts.filterMap (·.2.unmapped?)

end Substitution

/-- What one rule did to one text. -/
structure Tally where
  rule : String
  /-- Matches claimed. -/
  matched : Nat
  /-- Literals replaced. -/
  replaced : Nat
  /-- Literals without a token. -/
  unmapped : Nat
  /-- Matches left alone because they touch a comment. -/
  inComment : Nat
  /-- How often each literal without a token was met, by literal. -/
  unmappedLiterals : List (String × Nat)
  deriving DecidableEq, Repr, Inhabited

/-- Adds to the count of a name in a list that is sorted by name. -/
def addCount (name : String) (count : Nat) : List (String × Nat) → List (String × Nat)
  | [] => [(name, count)]
  | (other, n) :: counts =>
    if name = other then (other, n + count) :: counts
    else if name < other then (name, count) :: (other, n) :: counts
    else (other, n) :: addCount name count counts

/-- How often each name occurs in a list, sorted by name. -/
def countNames (names : List String) : List (String × Nat) :=
  names.foldl (fun counts name => addCount name 1 counts) []

/-- A text on its way through the rules. -/
structure Draft where
  text : List Char
  /-- What the rules so far have claimed, as spans of this text. -/
  claims : List Span
  deriving DecidableEq, Repr, Inhabited

/-- One rule applied to a draft. -/
def RuleSet.step (set : RuleSet) (rule : Rule) (draft : Draft) : Draft × Tally :=
  let hits := rule.hits draft.claims draft.text
  let comments := Comment.spans draft.text
  let free := hits.filter (!·.span.overlapsAny comments)
  let work := free.map fun hit => (hit, Substitution.ofValue set.table rule hit.literal)
  let edits := (work.filter (·.2.replaced ≠ 0)).map fun (hit, s) => (⟨hit.value, s.text⟩ : Edit)
  let unmapped := (work.map (·.2.unmapped)).flatten
  ({ text := splice 0 edits draft.text
     claims := (draft.claims ++ hits.map (·.span)).map (Span.relocate edits) },
   { rule := rule.id
     matched := hits.length
     replaced := Count.total (work.map (·.2.replaced))
     unmapped := unmapped.length
     inComment := hits.length - free.length
     unmappedLiterals := countNames unmapped })

/-- How often a rule replaced something. -/
structure Fix where
  rule : String
  count : Nat
  deriving DecidableEq, Repr, Inhabited

/-- A text after a rule set, with a tally per rule. -/
structure Revision where
  text : List Char
  tallies : List Tally
  deriving DecidableEq, Repr, Inhabited

namespace Revision

/-- Literals replaced. -/
def replaced (revision : Revision) : Nat :=
  Count.total (revision.tallies.map (·.replaced))

/-- Literals without a token. -/
def unmapped (revision : Revision) : Nat :=
  Count.total (revision.tallies.map (·.unmapped))

/-- Whether a literal was replaced. -/
def changed (revision : Revision) : Bool :=
  0 < revision.replaced

/-- The rules that replaced something. -/
def fixes (revision : Revision) : List Fix :=
  (revision.tallies.filter (0 < ·.replaced)).map fun tally => ⟨tally.rule, tally.replaced⟩

end Revision

namespace RuleSet

/-- Rules applied one after another. -/
def reviseWith (set : RuleSet) : List Rule → Draft → Revision
  | [], draft => ⟨draft.text, []⟩
  | rule :: rules, draft =>
    let (draft, tally) := set.step rule draft
    let revision := set.reviseWith rules draft
    ⟨revision.text, tally :: revision.tallies⟩

/-- The text after all rules of the set. -/
def revise (set : RuleSet) (text : List Char) : Revision :=
  set.reviseWith set.rules ⟨text, []⟩

/-- A text after a single rule, and the number of literals replaced. -/
def apply (set : RuleSet) (rule : Rule) (text : List Char) : List Char × Nat :=
  let (draft, tally) := set.step rule ⟨text, []⟩
  (draft.text, tally.replaced)

end RuleSet

end StyleTokens
