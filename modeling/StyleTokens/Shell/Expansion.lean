/-
What words stand for.

* `Run.fields` — the fields of words, with values cut and wildcards replaced;
* `Run.textOf`, `Run.fieldOf` — the text of a word as a whole;
* `Run.capture` — the output of commands.

Design notes: a word becomes a list of stretches, which are cut in a second pass.
What is passed over, such as a text for a missing value that is there, is not looked
at.
-/
import StyleTokens.Shell.Arithmetic
import StyleTokens.Shell.Demand
import StyleTokens.Shell.Field

namespace StyleTokens.Shell

/-- How a word is expanded. -/
structure Manner where
  /-- Whether values are cut into fields. -/
  full : Bool := false
  /-- Whether a tilde at the start stands for a directory. -/
  home : Bool := false
  /-- Whether one behind a colon does. -/
  homes : Bool := false
  /-- Whether one behind the first equals sign does. -/
  assigns : Bool := false
  /-- Whether plain text is cut like values. -/
  loose : Bool := false
  deriving DecidableEq, Repr, Inhabited

/-- The value of a parameter. -/
inductive Value
  | absent
  | single (text : List Char)
  /-- Arguments, with the sign that joins them where they are not told apart. -/
  | several (arguments : List (List Char)) (joint : List Char)
  deriving DecidableEq, Repr, Inhabited

namespace Value

/-- Whether there is a value; an empty one may count as none. -/
def isThere (colon : Bool) : Value → Bool
  | absent => false
  | single text => !(colon && text.isEmpty)
  | several arguments joint => !(colon && (List.intercalate joint arguments).isEmpty)

/-- Whether the value consists of arguments. -/
def hasParts : Value → Bool
  | several arguments _ => !arguments.isEmpty
  | _ => false

/-- The value as one text. -/
def text : Value → List Char
  | absent => []
  | single text => text
  | several arguments joint => List.intercalate joint arguments

end Value

/-- The glyphs of signs. -/
def Glyph.ofSigns (quoted : Bool) (signs : List Char) : List Glyph :=
  signs.map fun c => .sign c quoted

/-- The sign that stands for the border between two arguments where their texts are
one. -/
def borderSign : Char :=
  Char.ofNat 0

/-- The glyphs of a text with signs for borders. -/
def Glyph.ofBordered (quoted : Bool) (signs : List Char) : List Glyph :=
  signs.map fun c => if c = borderSign then .border else .sign c quoted

namespace Stretch

/-- The stretch of a value. -/
def ofValue (manner : Manner) (quoted isList : Bool) (glyphs : List Glyph) : Stretch :=
  let region : Region :=
    if !quoted then .separators else if manner.full && isList then .borders else .nowhere
  { region, glyphs }

end Stretch

namespace Run

/-- The signs at which values are cut. -/
def separators : Run (List Char) := do
  return ((← value? "IFS").getD " \t\n").toList

/-- The letters of options in the order in which they are told. -/
def flagOrder : List Char :=
  "efnCaubmIivxVEs".toList

/-- The value of a parameter. -/
def parameter (manner : Manner) (quoted : Bool) (name : String) : Run Value := do
  let process ← get
  let number := fun (n : Nat) => Value.single (toString n).toList
  match name with
  | "#" => return number process.arguments.length
  | "?" => return number process.status
  | "$" => return number process.root
  | "!" => return (process.background.map number).getD .absent
  | "-" => return .single process.flags
  | "@" | "*" =>
    let apart := manner.full && (!quoted || name = "@")
    let joint :=
      if apart then [borderSign]
      else
        match process.bindings.lookup "IFS" with
        | some found => (found.value.map fun text => text.toList.take 1).getD [' ']
        | none => [' ']
    return .several (process.arguments.map String.toList) joint
  | name =>
    match name.toNat? with
    | some 0 => return .single process.name.toList
    | some n =>
      match process.arguments[n - 1]? with
      | some text => return .single text.toList
      | none => return .absent
    | none =>
      match ← value? name with
      | some text => return .single text.toList
      | none => return .absent

/-- Refuses a parameter without a value. -/
def refuseUnset {α : Type} (name : String) : Run α :=
  fail (name ++ ": parameter not set")

/-- The directories of users. -/
def userHomes : List (String × String) := [
  ("root", "/root"), ("daemon", "/usr/sbin"), ("bin", "/bin"), ("sys", "/dev"), ("sync", "/bin"),
  ("games", "/usr/games"), ("man", "/var/cache/man"), ("mail", "/var/mail"),
  ("backup", "/var/backups"), ("nobody", "/nonexistent")]

/-- The directory that a tilde and a name stand for. -/
def homeOf (name : List Char) : Run (Option String) := do
  if name.isEmpty then value? "HOME" else return userHomes.lookup (String.ofList name)

/-- Plain text with tildes replaced; `start` says that one may come at once, and
`isLast` that nothing follows the text. -/
def tildes (manner : Manner) (isLast : Bool) :
    (fuel : Nat) → (start assigns : Bool) → List Char → Run (List Glyph)
  | 0, _, _, _ => return []
  | _, _, _, [] => return []
  | fuel + 1, start, assigns, c :: rest => do
    let plain := do
      let opens := (c = '=' && assigns) || (c = ':' && manner.homes)
      let more ← tildes manner isLast fuel opens (assigns && c ≠ '=') rest
      return .sign c false :: more
    if !start || c ≠ '~' then plain
    else
      let name := rest.takeWhile fun d => d ≠ '/' && !(manner.homes && d = ':')
      let after := rest.drop name.length
      if after.isEmpty && !isLast then plain
      else
        match ← homeOf name with
        | none => plain
        | some home =>
          let more ← tildes manner isLast fuel false assigns after
          return Glyph.ofSigns true home.toList ++ more

/-- The output of commands, without the ends of lines at its end. -/
def capture (evaluator : Evaluator) (body : Statement) : Run (List Char) := do
  if let .skip := body then return []
  let (source, goal, stream) ← update fun world =>
    let (world, source, goal) := world.openPipe
    (world, source, goal, keptStreams + world.fresh)
  let id := (← get).id
  act (Act.alter fun world => (world.connect id stream source).connect id (stream + 1) goal)
  let child ← fork evaluator do
    let id := (← get).id
    act (Act.alter fun world => ((world.connect id 1 goal).close id stream).close id (stream + 1))
    evaluator (.statement { last := true } body)
  act (Act.close id (stream + 1))
  let data ← act (Act.readAll id stream Act.portionLimit .empty)
  act (Act.close id stream)
  let exit ← act (Act.wait child)
  let status :=
    match exit with
    | .status code => code
    | .signal number => 128 + number
  modify fun process => { process with captured := status }
  let octets := Octets.ofBytes (data.toOption.getD .empty)
  let octets := octets.filter (· ≠ Char.ofNat 0)
  return (octets.reverse.dropWhile (· = '\n')).reverse

/-- The value of an expression. -/
def compute (expression : List Char) : Run (List Char) := do
  let process ← get
  let known := fun (name : String) => ((process.bindings.lookup name).bind (·.value)).getD ""
  match Arithmetic.value known expression with
  | .ok (value, changes) =>
    changes.reverse.forM fun (name, value) => assign name (toString value)
    return (toString value).toList
  | .error (.message text) =>
    fail ("arithmetic expression: " ++ text ++ ": \"" ++ String.ofList expression ++ "\"")
  | .error (.noNumber text) => fail ("Illegal number: " ++ text)
  | .error .overflow =>
    act (Act.alter fun world => world.signal process.id 8)
    throw .over

mutual

/-- The stretches of a word; `start` says that nothing comes before it. -/
def stretches (evaluator : Evaluator) : (fuel : Nat) → Manner → (start : Bool) → Word →
    Run (List Stretch)
  | 0, _, _, _ => return []
  | _, _, _, [] => return []
  | fuel + 1, manner, _, .mark :: .parameter true "@" none :: .mark :: rest => do
    let value ← parameter manner true "@"
    let found := Stretch.ofValue manner true (value.hasParts) (Glyph.ofBordered true value.text)
    return found :: (← stretches evaluator fuel manner false rest)
  | fuel + 1, manner, start, piece :: rest => do
    let (found, manner) ← glyphs evaluator fuel manner start rest.isEmpty piece
    return found ++ (← stretches evaluator fuel manner false rest)

/-- The stretches of a piece, and the manner for what follows it. -/
def glyphs (evaluator : Evaluator) : (fuel : Nat) → Manner → (start isLast : Bool) → Piece →
    Run (List Stretch × Manner)
  | 0, manner, _, _, _ => return ([], manner)
  | fuel + 1, manner, start, isLast, piece => do
    match piece with
    | .text true signs => return ([{ glyphs := Glyph.ofSigns true signs }], manner)
    | .text false signs =>
      let glyphs ← tildes manner isLast (signs.length + 1) (start && manner.home) manner.assigns signs
      let region : Region := if manner.loose then .separators else .nowhere
      return ([{ region, glyphs }], { manner with assigns := manner.assigns && !signs.contains '=' })
    | .mark => return ([{ glyphs := [.mark] }], manner)
    | .bad => fail "Bad substitution"
    | .size quoted name =>
      let value ← parameter { manner with full := false } true name
      if value = .absent && (← isOn 'u') then refuseUnset name
      let size := (toString value.text.length).toList
      return ([.ofValue manner quoted false (Glyph.ofSigns quoted size)], manner)
    | .output quoted body =>
      let signs ← capture evaluator body
      return ([.ofValue manner quoted false (Glyph.ofSigns quoted signs)], manner)
    | .arithmetic quoted expression =>
      let signs ← compute (Stretch.text (← stretches evaluator fuel {} true expression)).toList
      return ([.ofValue manner quoted false (Glyph.ofSigns quoted signs)], manner)
    | .parameter quoted name modifier? =>
      let whole := fun (value : Value) =>
        Stretch.ofValue manner quoted (name = "@" && value.hasParts)
          (Glyph.ofBordered quoted value.text)
      let inner : Manner := { manner with home := true, loose := !quoted }
      match modifier? with
      | none =>
        let value ← parameter manner quoted name
        if value = .absent && (← isOn 'u') then refuseUnset name
        return ([whole value], manner)
      | some (.default, colon, word) =>
        let value ← parameter manner quoted name
        if value.isThere colon then return ([whole value], manner)
        return (← stretches evaluator fuel inner true word, manner)
      | some (.alternative, colon, word) =>
        let value ← parameter manner quoted name
        if value.isThere colon then return (← stretches evaluator fuel inner true word, manner)
        return ([], manner)
      | some (.assign, colon, word) =>
        let value ← parameter manner quoted name
        if value.isThere colon then return ([whole value], manner)
        let text := Stretch.text (← stretches evaluator fuel { home := true } true word)
        assign name text
        return ([whole (← parameter manner quoted name)], manner)
      | some (.demand, colon, word) =>
        let value ← parameter manner quoted name
        if value.isThere colon then return ([whole value], manner)
        let text := Stretch.text (← stretches evaluator fuel { home := true } true word)
        if word.isEmpty then
          fail (name ++ ": parameter not set" ++ if colon then " or null" else "")
        fail (name ++ ": " ++ text)
      | some (modifier, _, word) =>
        let value ← parameter manner quoted name
        if value = .absent && (← isOn 'u') then refuseUnset name
        let pattern := Stretch.field (← stretches evaluator fuel { home := true } true word)
        let items := Wildcard.ofField pattern
        let signs :=
          match modifier with
          | .cutStart longest => Wildcard.cutStart longest items value.text
          | .cutEnd longest => Wildcard.cutEnd longest items value.text
          | _ => value.text
        let glyphs := Glyph.ofBordered quoted signs
        return ([.ofValue manner quoted (name = "@" && value.hasParts) glyphs], manner)

end

/-- Fuel that suffices for a word. -/
def wordFuel : Nat := 1000000000

/-- The text of a word that is not cut, as a field. -/
def fieldOf (evaluator : Evaluator) (word : Word) : Run Field := do
  return Stretch.field (← stretches evaluator wordFuel { home := true } true word)

/-- The text of a word that is not cut. -/
def textOf (evaluator : Evaluator) (word : Word) : Run String :=
  return (← fieldOf evaluator word).text

/-- The text of a word that is assigned to a variable. -/
def assignedText (evaluator : Evaluator) (word : Word) : Run String := do
  return Stretch.text (← stretches evaluator wordFuel { home := true, homes := true } true word)

/-- The fields of a word. -/
def fieldsOf (evaluator : Evaluator) (word : Word) : Run (List String) := do
  let found ← stretches evaluator wordFuel { full := true, home := true } true word
  let fields := Stretch.fields (← separators) found
  if ← isOn 'f' then return fields.map Field.text
  let disk ← disk
  return fields.flatMap (pathsOf disk)

/-- Whether a word has the form of an assignment. -/
def isAssignment (word : Word) : Bool :=
  (assignment? [] word).isSome

/-- The field of an argument of a command that assigns. -/
def assigningField (evaluator : Evaluator) (word : Word) : Run (List String) := do
  if !isAssignment word then fieldsOf evaluator word
  else
    let manner : Manner := { assigns := true, homes := true }
    return [Stretch.text (← stretches evaluator wordFuel manner true word)]

/-- The fields of words. -/
def fields (evaluator : Evaluator) (words : List Word) : Run (List String) := do
  return (← words.mapM (fieldsOf evaluator)).flatten

end Run

end StyleTokens.Shell
