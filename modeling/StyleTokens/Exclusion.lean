/-
Files that are left out.

A policy is a set of fragments; it excludes the paths that contain one of them.
Paths are compared with a slash in front, so that `/games/` also stands for the
directory `games` at the top, and with slashes for backslashes.

* `Exclusion.ofFragments` — the policy of a list of fragments, in whatever order;
* `Exclusion.excludes` — whether a path is left out;
* `excludes_iff` — a path is left out exactly if a fragment of the list that is
  not blank occurs in it.
-/
import StyleTokens.Names
import StyleTokens.Text.Blank

namespace StyleTokens

namespace Text

/-- Whether a text occurs in another. -/
def occursIn (part : List Char) : List Char → Bool
  | [] => part.isEmpty
  | c :: rest => part.isPrefixOf (c :: rest) || occursIn part rest

/-- The text with slashes for backslashes. -/
def slashed (text : List Char) : List Char :=
  text.map fun c => if c = '\\' then '/' else c

end Text

/-- Fragments of the paths to leave out. -/
structure Exclusion where
  fragments : Names
  deriving Repr, Inhabited

namespace Exclusion

/-- A fragment as it is compared. -/
def fragment (text : String) : String :=
  String.ofList (Text.slashed (Text.trim text.toList))

/-- The policy of some fragments; blank ones do not count. -/
def ofFragments (texts : List String) : Exclusion :=
  ⟨.ofList ((texts.map fragment).filter (· ≠ ""))⟩

/-- A path as it is compared. -/
def normalized (path : String) : List Char :=
  '/' :: (Text.slashed path.toList).dropWhile (· == '/')

/-- Whether a path contains a fragment. -/
def excludes (policy : Exclusion) (path : String) : Bool :=
  policy.fragments.toList.any fun fragment => Text.occursIn fragment.toList (normalized path)

theorem excludes_iff (texts : List String) (path : String) :
    (ofFragments texts).excludes path = true ↔
      ∃ text ∈ texts, fragment text ≠ "" ∧
        Text.occursIn (fragment text).toList (normalized path) = true := by
  simp only [excludes, List.any_eq_true, ofFragments, Names.mem_ofList, List.mem_filter,
    List.mem_map, decide_eq_true_eq]
  constructor
  · rintro ⟨_, ⟨⟨text, hm, rfl⟩, hne⟩, ho⟩
    exact ⟨text, hm, hne, ho⟩
  · rintro ⟨text, hm, hne, ho⟩
    exact ⟨_, ⟨⟨text, hm, rfl⟩, hne⟩, ho⟩

end Exclusion

end StyleTokens
