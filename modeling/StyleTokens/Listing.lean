/-
Listings of files and windows on them.

A listing is a set of paths in ascending order (`Names`).  A batch takes the
files of one window; the window after it starts where the batch ended.

* `Window.stop` and `Window.next` — ends of windows, which never pass
  `Window.limit`;
* `Window.of` — the part of a listing that a window shows.
-/
import StyleTokens.Count
import StyleTokens.Exclusion

namespace StyleTokens

/-- The files numbered from `start` on, `size` of them. -/
structure Window where
  start : Nat
  size : Nat
  deriving DecidableEq, Repr, Inhabited

namespace Window

/-- The greatest number that a file can have. -/
def limit : Nat := Count.bound - 1

/-- The number after the last file, as far as there are numbers. -/
def stop (window : Window) : Nat :=
  min (window.start + window.size) limit

/-- The window after a batch of some files. -/
def next (window : Window) (processed : Nat) : Window :=
  ⟨min (window.start + processed) limit, window.size⟩

/-- The files that a window shows. -/
def of (window : Window) (files : List String) : List String :=
  (files.take window.stop).drop window.start

/-- The files behind a batch that began at `start`. -/
def remaining (total start processed : Nat) : Nat :=
  total - min (start + processed) limit

end Window

/-- The number of files of a listing that a policy leaves out. -/
def Names.excludedCount (files : Names) (policy : Exclusion) : Nat :=
  (files.toList.filter policy.excludes).length

end StyleTokens
