/-
White space in text.

* `isBlank` — the Unicode property White_Space, the only notion of white space
  used for trimming and for splitting a value into its items;
* `trim` — text without its outer white space;
* `runs` — the maximal pieces that are white space throughout or free of it.

Design notes: the functions work on `List Char`, where recursion follows the
text, and `trimmed` carries `trim` over to `String`.
-/
namespace StyleTokens.Text

/-- The characters with the Unicode property White_Space. -/
def isBlank (c : Char) : Bool :=
  let n := c.toNat
  (9 ≤ n && n ≤ 13) || n == 0x20 || n == 0x85 || n == 0xA0 || n == 0x1680 ||
    (0x2000 ≤ n && n ≤ 0x200A) || n == 0x2028 || n == 0x2029 || n == 0x202F ||
    n == 0x205F || n == 0x3000

/-- Text of white space only; the empty text is one. -/
def allBlank (text : List Char) : Bool :=
  text.all isBlank

/-- The text without leading white space. -/
def trimLeft (text : List Char) : List Char :=
  text.dropWhile isBlank

/-- The text without trailing white space. -/
def trimRight (text : List Char) : List Char :=
  (text.reverse.dropWhile isBlank).reverse

/-- The text without leading and trailing white space. -/
def trim (text : List Char) : List Char :=
  trimRight (trimLeft text)

/-- `trim` on strings. -/
def trimmed (text : String) : String :=
  String.ofList (trim text.toList)

/-- ASCII letters in lower case, all other characters unchanged. -/
def lowered (text : String) : String :=
  String.ofList (text.toList.map Char.toLower)

/-- The maximal runs of white space and of other characters, in order. -/
def runs : List Char → List (List Char)
  | [] => []
  | c :: rest =>
    match runs rest with
    | (d :: run) :: others =>
      if isBlank c == isBlank d then (c :: d :: run) :: others else [c] :: (d :: run) :: others
    | others => [c] :: others

theorem flatten_runs (text : List Char) : (runs text).flatten = text := by
  induction text with
  | nil => rfl
  | cons c rest ih =>
    unfold runs
    split
    · next d run others h =>
      rw [h] at ih
      split <;> simpa using ih
    · simp [ih]

theorem isBlank_of_isWhitespace (c : Char) (h : c.isWhitespace = true) : isBlank c = true := by
  simp only [Char.isWhitespace, Bool.or_eq_true, decide_eq_true_eq] at h
  rcases h with ((rfl | rfl) | rfl) | rfl <;> decide

end StyleTokens.Text
