/-
Patterns: what a rule looks for in a text.

A pattern is read from its notation (`Pattern.Parser`), turned into a program
whose choices carry labels (`Pattern.Program`) and run over a text
(`Pattern.Search`).  This module holds the tree and the conditions that a
pattern can put on a place in the text.

* `Assertion.holds` — a condition on the two neighbours of a place;
* `Pattern.matchesNothing` — whether a pattern can match without consuming a
  character, decided on the tree alone;
* `Flaw` — what can be wrong with the notation of a pattern.
-/
import StyleTokens.Pattern.CharSet

namespace StyleTokens

/-- A condition on a place between two characters. -/
inductive Assertion
  | textStart
  | textEnd
  | lineStart
  | lineEnd
  /-- Line start where a carriage return, a line feed or both end a line. -/
  | anyLineStart
  /-- Line end where a carriage return, a line feed or both end a line. -/
  | anyLineEnd
  | wordEdge
  | noWordEdge
  | wordStart
  | wordEnd
  | noWordBefore
  | noWordAfter
  deriving DecidableEq, Repr, Inhabited

namespace Assertion

/-- Whether a neighbour is a word character; the ends of the text have none. -/
def isWord : Option Char → Bool
  | none => false
  | some c => CharSet.word.contains c

/-- Whether the condition holds between `before` and `after`. -/
def holds (before after : Option Char) : Assertion → Bool
  | textStart => before.isNone
  | textEnd => after.isNone
  | lineStart => before.isNone || before == some '\n'
  | lineEnd => after.isNone || after == some '\n'
  | anyLineStart =>
    before.isNone || before == some '\n' || (before == some '\r' && after != some '\n')
  | anyLineEnd =>
    after.isNone || after == some '\r' || (after == some '\n' && before != some '\r')
  | wordEdge => isWord before != isWord after
  | noWordEdge => isWord before == isWord after
  | wordStart => !isWord before && isWord after
  | wordEnd => isWord before && !isWord after
  | noWordBefore => !isWord before
  | noWordAfter => !isWord after

end Assertion

/-- A pattern.  Of two alternatives the first is preferred, and a greedy
repetition prefers another round to leaving. -/
inductive Pattern
  | empty
  | one (set : CharSet)
  | assert (condition : Assertion)
  /-- Records what `body` matched under a name. -/
  | group (name : String) (body : Pattern)
  | seq (a b : Pattern)
  | alt (a b : Pattern)
  /-- At least `low` rounds of `body`, and at most `high` where there is one. -/
  | rounds (low : Nat) (high : Option Nat) (greedy : Bool) (body : Pattern)
  deriving DecidableEq, Repr, Inhabited

namespace Pattern

/-- The patterns one after another. -/
def seqOf : List Pattern → Pattern
  | [] => empty
  | [p] => p
  | p :: rest => seq p (seqOf rest)

/-- The patterns as alternatives, the first preferred. -/
def altOf : List Pattern → Pattern
  | [] => empty
  | [p] => p
  | p :: rest => alt p (altOf rest)

/-- Whether the pattern can match without consuming a character, assertions
counting as satisfied. -/
def matchesNothing : Pattern → Bool
  | empty => true
  | one _ => false
  | assert _ => true
  | group _ body => body.matchesNothing
  | seq a b => a.matchesNothing && b.matchesNothing
  | alt a b => a.matchesNothing || b.matchesNothing
  | rounds low _ _ body => low == 0 || body.matchesNothing

/-- The names of the groups, in order of their openings. -/
def names : Pattern → List String
  | empty | one _ | assert _ => []
  | group name body => name :: body.names
  | seq a b | alt a b => a.names ++ b.names
  | rounds _ _ _ body => body.names

end Pattern

/-! Notation -/

/-- Why a text is not the notation of a pattern. -/
inductive Flaw
  | unclosedGroup
  | unopenedGroup
  | lookAround
  | groupName
  | repeatedName (name : String)
  | noFlags
  | unknownFlag (flag : Char)
  | repeatedFlag (flag : Char)
  | negation
  | nothingToRepeat
  | count
  | reversedCount
  | unclosedClass
  | nestedClass
  | classOperator
  | classItem
  | reversedRange
  | unfinishedEscape
  | unknownEscape (letter : Char)
  | backReference
  | unicodeClass
  | codePoint
  | wordEdge
  | tooDeep
  | tooLarge
  deriving DecidableEq, Repr, Inhabited

/-- The flaw in words. -/
def Flaw.message : Flaw → String
  | unclosedGroup => "unclosed group"
  | unopenedGroup => "unopened group"
  | lookAround => "look-around is not supported"
  | groupName => "invalid group name"
  | repeatedName name => "duplicate group name " ++ name
  | noFlags => "empty flags"
  | unknownFlag flag => "unrecognized flag " ++ flag.toString
  | repeatedFlag flag => "duplicate flag " ++ flag.toString
  | negation => "misplaced negation of flags"
  | nothingToRepeat => "repetition of nothing"
  | count => "invalid repetition count"
  | reversedCount => "repetition count with its bounds reversed"
  | unclosedClass => "unclosed character class"
  | nestedClass => "nested character classes are not supported"
  | classOperator => "operators on character classes are not supported"
  | classItem => "invalid item of a character class"
  | reversedRange => "character range with its bounds reversed"
  | unfinishedEscape => "escape at the end of the pattern"
  | unknownEscape letter => "unrecognized escape " ++ letter.toString
  | backReference => "backreferences are not supported"
  | unicodeClass => "Unicode classes are not supported"
  | codePoint => "invalid hexadecimal code point"
  | wordEdge => "invalid word boundary"
  | tooDeep => "pattern is nested too deeply"
  | tooLarge => "pattern is too large"

end StyleTokens
