/-
Globs: patterns for whole paths.

`?` stands for one byte, `*` for any bytes, `[a-z]` for one byte of a class,
`{a,b}` for one of several globs and a backslash for the sign behind it.  Between
slashes or ends, `**` stands for any directories.

* `Glob.parse` — the glob that a text denotes, or why it denotes none;
* `Glob.height` — how deep a glob is nested, which has a limit;
* `Glob.accepts` — whether a glob matches a path from end to end.

Design notes: a path is a list of bytes here, so a sign outside ASCII in a class
counts for its bytes one by one.  Matching marks all places of the path that may be
reached, and each token moves the marks: a walk along the path, however many ways
lead to a place.
-/
import StyleTokens.Fault

namespace StyleTokens

namespace Glob

/-- A part of a glob. -/
inductive Token
  | literal (c : Char)
  | anyByte
  | anyBytes
  /-- Nothing, or any directories, at the start. -/
  | directoriesBefore
  /-- A slash and anything behind it, at the end. -/
  | allBelow
  /-- A slash, or any directories between two slashes. -/
  | directoriesBetween
  | byteIn (negated : Bool) (ranges : List (Char × Char))
  | oneOf (branches : List (List Token))
  deriving Inhabited

/-- Why a text is no glob. -/
inductive GlobFlaw
  | unclosedClass
  | reversedRange
  | unopenedBrace
  | unclosedBrace
  | danglingEscape
  | tooDeep
  deriving DecidableEq, Repr, Inhabited

/-- The flaw in words. -/
def GlobFlaw.message : GlobFlaw → String
  | unclosedClass => "unclosed character class"
  | reversedRange => "invalid character range"
  | unopenedBrace => "unopened alternate group"
  | unclosedBrace => "unclosed alternate group"
  | danglingEscape => "dangling escape"
  | tooDeep => "nested too deeply"

/-- Branches of a group: those that are complete and the tokens of the current
one, both in reverse. -/
structure Group where
  complete : List (List Token) := []
  tokens : List Token := []
  deriving Inhabited

namespace Group

/-- The group with one more token. -/
def push (group : Group) (token : Token) : Group :=
  { group with tokens := token :: group.tokens }

/-- The group with a new branch. -/
def branch (group : Group) : Group :=
  { complete := group.tokens.reverse :: group.complete }

/-- The token that a group amounts to. -/
def close (group : Group) : Token :=
  .oneOf (group.tokens.reverse :: group.complete).reverse

end Group

/-- A class up to its bracket, and the text after it.  `ranges` stand in reverse;
`waiting` says that the last of them waits for its end. -/
def classRanges : Nat → (first waiting : Bool) → List (Char × Char) → List Char →
    Except GlobFlaw (List (Char × Char) × List Char)
  | 0, _, _, _, _ => throw .unclosedClass
  | _ + 1, _, _, _, [] => throw .unclosedClass
  | fuel + 1, first, waiting, ranges, c :: rest =>
    if c = ']' && !first then
      return ((if waiting then ('-', '-') :: ranges else ranges).reverse, rest)
    else
      match waiting, ranges with
      | true, (low, _) :: others =>
        if c < low then throw .reversedRange
        else classRanges fuel false false ((low, c) :: others) rest
      | _, _ =>
        if c = '-' && !first then classRanges fuel false true ranges rest
        else classRanges fuel false false ((c, c) :: ranges) rest

/-- What two stars amount to within a group: the group after them, and whether they
take the slash behind them.  `before` and `after` are their neighbours. -/
def doubleStar (group : Group) (nested : Bool) (before after : Option Char) : Group × Bool :=
  let plain := ((group.push .anyBytes).push .anyBytes, false)
  match group.tokens with
  | [] =>
    if after.isNone || after = some '/' then (group.push .directoriesBefore, true) else plain
  | last :: others =>
    if before ≠ some '/' && !(nested && (before = some ',' || before = some '\x7b')) then plain
    else
      let ends := after.isNone || (nested && (after = some ',' || after = some '\x7d'))
      if !ends && after ≠ some '/' then plain
      else
        let token :=
          match last with
          | .directoriesBefore => .directoriesBefore
          | .allBelow => .allBelow
          | _ => if ends then .allBelow else .directoriesBetween
        ({ group with tokens := token :: others }, !ends)

/-- The tokens of a text.  `outer` are the groups around the current one, and
`before` is the sign in front of the text. -/
def tokensFrom : Nat → (outer : List Group) → Group → (before : Option Char) → List Char →
    Except GlobFlaw (List Token)
  | 0, _, _, _, _ => throw .unclosedBrace
  | _ + 1, outer, group, _, [] =>
    if outer.isEmpty then return group.tokens.reverse else throw .unclosedBrace
  | fuel + 1, outer, group, before, c :: rest =>
    match c with
    | '?' => tokensFrom fuel outer (group.push .anyByte) (some c) rest
    | '*' =>
      match rest with
      | '*' :: rest =>
        let (group, takesSlash) := doubleStar group (!outer.isEmpty) before rest.head?
        if takesSlash && !rest.isEmpty then tokensFrom fuel outer group (some '/') rest.tail
        else tokensFrom fuel outer group (some '*') rest
      | rest => tokensFrom fuel outer (group.push .anyBytes) (some c) rest
    | '[' => do
      let negated := rest.head? = some '!' || rest.head? = some '^'
      let rest := if negated then rest.tail else rest
      let (ranges, rest) ← classRanges (rest.length + 1) true false [] rest
      tokensFrom fuel outer (group.push (.byteIn negated ranges)) (some ']') rest
    | '\x7b' => tokensFrom fuel (group :: outer) {} (some c) rest
    | '\x7d' =>
      match outer with
      | [] => throw .unopenedBrace
      | group' :: outer => tokensFrom fuel outer (group'.push group.close) (some c) rest
    | ',' =>
      if outer.isEmpty then tokensFrom fuel outer (group.push (.literal c)) (some c) rest
      else tokensFrom fuel outer group.branch (some c) rest
    | '\\' =>
      match rest with
      | [] => throw .danglingEscape
      | d :: rest => tokensFrom fuel outer (group.push (.literal d)) (some d) rest
    | c => tokensFrom fuel outer (group.push (.literal c)) (some c) rest

/-- The bytes of a character. -/
def bytesOf (c : Char) : List UInt8 :=
  c.toString.toUTF8.data.toList

/-- Whether a byte lies in a range of characters, each of which counts for its
bytes one by one. -/
def inRange (byte : UInt8) (range : Char × Char) : Bool :=
  let low := bytesOf range.1
  let high := bytesOf range.2
  if range.1 = range.2 then low.contains byte
  else
    low.dropLast.contains byte || high.tail.contains byte ||
      (low.getLastD 0 ≤ byte && byte ≤ high.headD 0)

/-! Places of a text -/

/-- Places of a text that are marked: one flag in front of each byte, and one at
the end. -/
abbrev Marks := List Bool

/-- The marks moved over each byte that passes a test. -/
def Marks.over (passes : UInt8 → Bool) (marks : Marks) (text : List UInt8) : Marks :=
  false :: List.zipWith (fun marked byte => marked && passes byte) marks text

/-- The marks moved over one byte. -/
def Marks.overByte (byte : UInt8) (marks : Marks) (text : List UInt8) : Marks :=
  marks.over (· == byte) text

/-- The marks and all places behind them. -/
def Marks.onwards (marks : Marks) : Marks :=
  go false marks
where
  go (reached : Bool) : Marks → Marks
    | [] => []
    | marked :: marks => (reached || marked) :: go (reached || marked) marks

/-- The places of either. -/
def Marks.or (marks others : Marks) : Marks :=
  List.zipWith (· || ·) marks others

/-- The marks, and what follows a slash behind them. -/
def Marks.overDirectories (marks : Marks) (text : List UInt8) : Marks :=
  marks.or (marks.onwards.overByte 0x2F text)

/-- No place. -/
def Marks.none (text : List UInt8) : Marks :=
  List.replicate (text.length + 1) false

/-- The place in front of the first byte. -/
def Marks.first (text : List UInt8) : Marks :=
  true :: List.replicate text.length false

mutual

/-- Whether a token stands for nothing at all. -/
def isVoid : Token → Bool
  | .oneOf branches => areVoid branches
  | _ => false

/-- Whether all branches stand for nothing. -/
def areVoid : List (List Token) → Bool
  | [] => true
  | branch :: branches => isVoidBranch branch && areVoid branches

/-- Whether all tokens of a branch stand for nothing. -/
def isVoidBranch : List Token → Bool
  | [] => true
  | token :: tokens => isVoid token && isVoidBranch tokens

end

/-- The items that a class lists: the bytes of its signs and its ranges. -/
def classItems (range : Char × Char) : Nat :=
  if range.1 = range.2 then range.1.utf8Size else range.1.utf8Size + range.2.utf8Size - 1

/-- How many items a token adds to the row in which it stands. -/
def itemsOf : Token → Nat
  | .literal c => c.utf8Size
  | .allBelow => 2
  | .oneOf branches => if areVoid branches then 0 else 1
  | _ => 1

/-- Whether tokens in a row are several items. -/
def areSeveral (tokens : List Token) : Bool :=
  1 < tokens.foldl (fun count token => count + itemsOf token) 0

mutual

/-- How deep a token is nested.  What stands for nothing does not count. -/
def heightOf : Token → Nat
  | .literal _ | .anyByte => 0
  | .anyBytes | .allBelow => 1
  | .directoriesBefore | .directoriesBetween => 4
  | .byteIn _ ranges =>
    if 1 < ranges.foldl (fun count range => count + classItems range) 0 then 2 else 1
  | .oneOf branches =>
    if areVoid branches then 0
    else
      let several := 1 < branches.countP (!isVoidBranch ·)
      (if several then 2 else 1) + heightOfBranches branches

/-- The greatest height of several branches.  A row of several items is a level of
its own. -/
def heightOfBranches : List (List Token) → Nat
  | [] => 0
  | branch :: branches =>
    max ((if areSeveral branch then 1 else 0) + highest branch) (heightOfBranches branches)

/-- The greatest height of the tokens of a row. -/
def highest : List Token → Nat
  | [] => 0
  | token :: tokens => max (heightOf token) (highest tokens)

end

mutual

/-- The places that marks lead to over a token. -/
def move (text : List UInt8) (marks : Marks) : Token → Marks
  | .literal c => (bytesOf c).foldl (fun marks byte => marks.overByte byte text) marks
  | .anyByte => marks.over (fun _ => true) text
  | .anyBytes => marks.onwards
  | .directoriesBefore => marks.overDirectories text
  | .allBelow => (marks.overByte 0x2F text).onwards
  | .directoriesBetween => (marks.overByte 0x2F text).overDirectories text
  | .byteIn negated ranges =>
    marks.over (fun byte => ranges.any (inRange byte) != negated) text
  | .oneOf branches => if areVoid branches then marks else moveOverAny text marks branches

/-- The places that marks lead to over one of several branches; those that stand for
nothing do not count. -/
def moveOverAny (text : List UInt8) (marks : Marks) : List (List Token) → Marks
  | [] => Marks.none text
  | branch :: branches =>
    if isVoidBranch branch then moveOverAny text marks branches
    else (moveOverAll text marks branch).or (moveOverAny text marks branches)

/-- The places that marks lead to over tokens in a row. -/
def moveOverAll (text : List UInt8) (marks : Marks) : List Token → Marks
  | [] => marks
  | token :: tokens => moveOverAll text (move text marks token) tokens

end

end Glob

/-- A glob. -/
structure Glob where
  tokens : List Glob.Token
  deriving Inhabited

namespace Glob

/-- How deep a glob is nested. -/
def height (glob : Glob) : Nat :=
  1 + highest glob.tokens

/-- The greatest height of a glob. -/
def heightLimit : Nat := 250

/-- The glob that a text denotes. -/
def parse (text : String) : Except Fault Glob :=
  match tokensFrom (text.length + 1) [] {} none text.toList with
  | .ok tokens =>
    if Glob.height ⟨tokens⟩ ≤ heightLimit then return ⟨tokens⟩
    else throw (.glob text GlobFlaw.tooDeep.message)
  | .error flaw => throw (.glob text flaw.message)

/-- Whether a glob matches a path from end to end.  A lone `**` matches all paths. -/
def accepts (glob : Glob) (path : String) : Bool :=
  match glob.tokens with
  | [.directoriesBefore] => true
  | tokens =>
    let text := path.toUTF8.data.toList
    (moveOverAll text (Marks.first text) tokens).getLastD false

end Glob

end StyleTokens
