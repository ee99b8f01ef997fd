/-
The configuration that is used when no other is given.

Its patterns find declarations in style sheets and in the style attributes and
script objects of components; each takes the first value, or the list of values,
of a declaration.
-/
import StyleTokens.Configuration

namespace StyleTokens.Builtin

/-- What may stand in front of the name of a property. -/
def lead : String := "(?:^|[\\s;\x7b\"'])"

/-- What stands between a name and its value. -/
def colon : String := "\\s*:\\s*['\"]?"

/-- A number of pixels. -/
def pixels : String := "\\d+(?:\\.\\d+)?px"

/-- The part of a declaration that a rule replaces. -/
def value (pattern : String) : String :=
  "(?P<value>" ++ pattern ++ ")"

/-- A value of one part and up to `more` others like it. -/
def listOf (part : String) (more : Nat) : String :=
  value (part ++ "(?:\\s+" ++ part ++ ")\x7b0," ++ toString more ++ "\x7d")

/-- A length that may be negative or zero. -/
def margin : String := "-?(?:" ++ pixels ++ "|0)"

/-- The sides of a box, as they end the name of a property. -/
def sides : String := "(?:-(?:top|right|bottom|left)|Top|Right|Bottom|Left)?"

/-- The properties that hold colors, up to a color that may be found in them. -/
def colored : String :=
  "(?:color|background-color|background|border-color" ++
    "|border(?:-(?:top|right|bottom|left))?|outline|fill|stroke|box-shadow)" ++
    "\\s*:[^;\x7b\x7d\\n#(]*?"

/-- Font sizes, dimensions and line heights. -/
def size : List RuleDraft := [
  { id := "font-size"
    category := .fontSize
    description := "font-size declarations in px"
    pattern := lead ++ "(?:font-size|fontSize)" ++ colon ++ value pixels },
  { id := "dimension"
    category := .size
    description := "width/height and their min/max variants in px"
    pattern :=
      lead ++ "(?:(?:min-|max-)?(?:width|height)|(?:min|max)(?:Width|Height))" ++ colon ++
        value pixels },
  { id := "line-height"
    category := .size
    description := "line-height in px"
    pattern := lead ++ "(?:line-height|lineHeight)" ++ colon ++ value pixels }]

/-- Margins, paddings and gaps. -/
def spacing : List RuleDraft := [
  { id := "margin"
    category := .spacing
    description := "margin shorthand and sides, each value mapped separately"
    splitValues := true
    pattern := lead ++ "margin" ++ sides ++ colon ++ listOf margin 3 },
  { id := "padding"
    category := .spacing
    description := "padding shorthand and sides, each value mapped separately"
    splitValues := true
    pattern := lead ++ "padding" ++ sides ++ colon ++ listOf margin 3 },
  { id := "gap"
    category := .spacing
    description := "gap, row-gap and column-gap"
    splitValues := true
    pattern := lead ++ "(?:(?:row-|column-)?gap|rowGap|columnGap)" ++ colon ++ listOf margin 1 }]

/-- Offsets and the stacking order. -/
def position : List RuleDraft := [
  { id := "offset"
    category := .position
    description := "top/right/bottom/left offsets in px"
    pattern := lead ++ "(?:top|right|bottom|left)" ++ colon ++ value ("-?" ++ pixels) },
  { id := "z-index"
    category := .zIndex
    description := "z-index stacking values"
    pattern := lead ++ "(?:z-index|zIndex)" ++ colon ++ value "\\d+" }]

/-- Radii of corners. -/
def radius : List RuleDraft := [
  { id := "border-radius"
    category := .radius
    description := "border-radius and per-corner radii"
    splitValues := true
    pattern :=
      lead ++ "(?:border(?:-(?:top|bottom)-(?:left|right))?-radius|borderRadius)" ++ colon ++
        listOf pixels 3 }]

/-- Colors in hexadecimal and as components. -/
def color : List RuleDraft := [
  { id := "hex-color"
    category := .color
    description := "first hex color of a color-bearing declaration"
    pattern := lead ++ colored ++ value "#[0-9a-fA-F]\x7b6\x7d|#[0-9a-fA-F]\x7b3\x7d" },
  { id := "rgba-color"
    category := .color
    description := "first rgb()/rgba() color of a color-bearing declaration"
    pattern :=
      lead ++ colored ++
        value ("rgba?\\(\\s*\\d+\\s*,\\s*\\d+\\s*,\\s*\\d+\\s*" ++
          "(?:,\\s*(?:\\d*\\.)?\\d+\\s*)?\\)") }]

/-- Tokens of a category. -/
def tokens (category : Category) (pairs : List (String × String)) : List TokenEntry :=
  pairs.map fun (literal, token) => ⟨literal, category, token⟩

/-- The tokens of all categories. -/
def entries : List TokenEntry :=
  tokens .fontSize [
      ("12px", "var(--text-xs)"),
      ("13px", "var(--text-sm)"),
      ("14px", "var(--text-base)"),
      ("16px", "var(--text-md)"),
      ("18px", "var(--text-lg)"),
      ("20px", "var(--text-xl)"),
      ("24px", "var(--text-2xl)"),
      ("32px", "var(--text-3xl)")] ++
  tokens .size [
      ("16px", "var(--icon-size-sm)"),
      ("20px", "var(--icon-size-md)"),
      ("24px", "var(--icon-size-lg)"),
      ("32px", "var(--size-control-sm)"),
      ("40px", "var(--size-control-md)"),
      ("64px", "var(--header-height)"),
      ("80px", "var(--sidebar-collapsed-width)"),
      ("280px", "var(--sidebar-width)")] ++
  tokens .spacing [
      ("2px", "var(--spacing-xxs)"),
      ("4px", "var(--spacing-xs)"),
      ("8px", "var(--spacing-sm)"),
      ("12px", "var(--spacing-base)"),
      ("16px", "var(--spacing-md)"),
      ("24px", "var(--spacing-lg)"),
      ("32px", "var(--spacing-xl)"),
      ("48px", "var(--spacing-xxl)")] ++
  tokens .position [
      ("4px", "var(--spacing-xs)"),
      ("8px", "var(--spacing-sm)"),
      ("16px", "var(--spacing-md)"),
      ("24px", "var(--spacing-lg)"),
      ("64px", "var(--header-height)")] ++
  tokens .zIndex [
      ("1", "var(--z-index-base)"),
      ("10", "var(--z-index-dropdown)"),
      ("100", "var(--z-index-sticky)"),
      ("1000", "var(--z-index-fixed)"),
      ("2000", "var(--z-index-modal)"),
      ("3000", "var(--z-index-popover)"),
      ("9999", "var(--z-index-top)")] ++
  tokens .radius [
      ("2px", "var(--radius-xs)"),
      ("4px", "var(--radius-sm)"),
      ("8px", "var(--radius-md)"),
      ("12px", "var(--radius-lg)"),
      ("16px", "var(--radius-xl)")] ++
  tokens .color [
      ("#409eff", "var(--primary-color)"),
      ("#67c23a", "var(--success-color)"),
      ("#e6a23c", "var(--warning-color)"),
      ("#f56c6c", "var(--danger-color)"),
      ("#909399", "var(--info-color)"),
      ("#303133", "var(--text-primary)"),
      ("#606266", "var(--text-regular)"),
      ("#c0c4cc", "var(--text-placeholder)"),
      ("#dcdfe6", "var(--border-color)"),
      ("#e4e7ed", "var(--border-color-light)"),
      ("#ebeef5", "var(--border-color-lighter)"),
      ("#f5f7fa", "var(--bg-color-page)"),
      ("#fafafa", "var(--bg-color-light)"),
      ("#ffffff", "var(--color-white)"),
      ("#fff", "var(--color-white)"),
      ("#000000", "var(--color-black)"),
      ("#000", "var(--color-black)"),
      ("rgba(0, 0, 0, 0.1)", "var(--shadow-color-light)"),
      ("rgba(0, 0, 0, 0.5)", "var(--overlay-color)")]

/-- The configuration. -/
def configuration : Configuration where
  entries := entries
  ruleSets := [
    ("color", color), ("position", position), ("radius", radius), ("size", size),
    ("spacing", spacing)]
  exclude := ["/games/"]

end StyleTokens.Builtin
