/-
Categories of literals.

The same literal can stand for different tokens in different kinds of
declarations, so every literal is looked up under a category.

* `Category.label` — the name of a category, the same in configuration,
  reports and listings;
* `Category.ofLabel?_label` — a label names its category;
* `Category.ofText?` — reads a name as a person types it.
-/
import StyleTokens.Text.Blank

namespace StyleTokens

/-- How literals are compared: lengths by their number, colors by their signs. -/
inductive LiteralKind
  | length
  | color
  deriving DecidableEq, Repr, Inhabited

/-- The name of the kind. -/
def LiteralKind.label : LiteralKind → String
  | length => "length"
  | color => "color"

/-- A group of literals with tokens of its own. -/
inductive Category
  | fontSize
  | size
  | spacing
  | position
  | radius
  | zIndex
  | color
  deriving DecidableEq, Repr, Inhabited

namespace Category

/-- All categories, in the order in which they are listed. -/
def all : List Category :=
  [fontSize, size, spacing, position, radius, zIndex, color]

theorem mem_all (c : Category) : c ∈ all := by
  cases c <;> decide

/-- The name of a category. -/
def label : Category → String
  | fontSize => "font-size"
  | size => "size"
  | spacing => "spacing"
  | position => "position"
  | radius => "radius"
  | zIndex => "z-index"
  | color => "color"

/-- Only colors are not lengths; a stacking order counts as one. -/
def kind : Category → LiteralKind
  | color => .color
  | _ => .length

/-- The category with exactly this name. -/
def ofLabel? (name : String) : Option Category :=
  all.find? (·.label == name)

/-- The category that a text names, in any case and with blanks around it. -/
def ofText? (text : String) : Option Category :=
  ofLabel? (Text.lowered (Text.trimmed text))

theorem ofLabel?_label (c : Category) : ofLabel? c.label = some c := by
  cases c <;> decide

theorem label_injective {a b : Category} (h : a.label = b.label) : a = b := by
  have := ofLabel?_label a
  rw [h, ofLabel?_label b] at this
  exact (Option.some.inj this).symm

end Category

end StyleTokens
