/-
Programs: patterns made ready for a search.

A program is the pattern with its counted repetitions written out as copies and
with a label at every place where a search may go more than one way.  Going
through a label twice without consuming a character cannot lead anywhere new,
so the labels are all that a search has to remember (`Pattern.Search`).

* `Pattern.program` — the program of a pattern;
* `Pattern.nodes` — a bound for the number of its nodes, found without building
  it.

Design notes: the labels of two copies differ, so a label also fixes what is
left to do after it.  A starred body that can match nothing is entered through
a choice of its own, so that leaving at once is still its last resort.  Copies
are put together from the last one on, so that a long row of them needs no
more room than a short one.
-/
import StyleTokens.Pattern.Basic

namespace StyleTokens

/-- A node of a program. -/
inductive Node
  | empty
  | one (set : CharSet)
  | assert (condition : Assertion)
  | group (name : String) (body : Node)
  | seq (a b : Node)
  /-- Goes on with `a`, or failing that with `b`. -/
  | choice (label : Nat) (a b : Node)
  /-- Another round of `body` or none; `greedy` tries the round first. -/
  | again (label : Nat) (greedy : Bool) (body : Node)
  /-- A round of `body`, then `again`. -/
  | atLeastOnce (label : Nat) (greedy : Bool) (body : Node)
  deriving DecidableEq, Repr, Inhabited

/-- A program of at most `size` nodes, the labels of which are below `labels`. -/
structure Program where
  root : Node
  labels : Nat
  size : Nat
  deriving Repr, Inhabited

namespace Pattern

/-- The nodes of the program of a pattern, or more. -/
def nodes : Pattern → Nat
  | empty | one _ | assert _ => 1
  | group _ body => body.nodes + 1
  | seq a b | alt a b => a.nodes + b.nodes + 1
  | rounds low high _ body =>
    low * (body.nodes + 1) + (high.getD low - low) * (body.nodes + 3) + body.nodes + 3

/-- A label that was not given out before. -/
def freshLabel : StateM Nat Nat :=
  modifyGet fun n => (n, n + 1)

/-- A choice between a node and nothing. -/
def optional (greedy : Bool) (label : Nat) (node : Node) : Node :=
  if greedy then .choice label node .empty else .choice label .empty node

/-- `count` copies, each built anew and so with labels of its own, then `last`. -/
def copies (build : StateM Nat Node) : Nat → Node → StateM Nat Node
  | 0, last => pure last
  | count + 1, last => do
    let node ← build
    copies build count (.seq node last)

/-- Up to `count` copies, each tried only after the one before, the last of them
followed by `rest`. -/
def optionalCopies (greedy : Bool) (build : StateM Nat Node) : Nat → Node → StateM Nat Node
  | 0, rest => pure rest
  | count + 1, rest => do
    let label ← freshLabel
    let node ← build
    optionalCopies greedy build count (optional greedy label (.seq node rest))

/-- One round, then as many more as wanted. -/
def oneOrMore (greedy : Bool) (build : StateM Nat Node) : StateM Nat Node := do
  let label ← freshLabel
  return .atLeastOnce label greedy (← build)

/-- Any number of rounds. -/
def anyNumber (greedy nullable : Bool) (build : StateM Nat Node) : StateM Nat Node := do
  let label ← freshLabel
  if nullable then
    return optional greedy label (← oneOrMore greedy build)
  else
    return .again label greedy (← build)

/-- The labelled tree of a pattern, counting labels up from the state. -/
def build : Pattern → StateM Nat Node
  | empty => pure .empty
  | one set => pure (.one set)
  | assert condition => pure (.assert condition)
  | group name body => return .group name (← body.build)
  | seq a b => return .seq (← a.build) (← b.build)
  | alt a b => do
    let label ← freshLabel
    return .choice label (← a.build) (← b.build)
  | rounds low high greedy body =>
    match high with
    | some high => do
      let rest ← optionalCopies greedy body.build (high - low) .empty
      copies body.build low rest
    | none =>
      if low = 0 then anyNumber greedy body.matchesNothing body.build
      else do
        let last ← oneOrMore greedy body.build
        copies body.build (low - 1) last

/-- The program of a pattern. -/
def program (pattern : Pattern) : Program :=
  let (root, labels) := pattern.build.run 0
  { root, labels, size := pattern.nodes }

end Pattern

end StyleTokens
