/-
Reading shell commands.

A script is read line by line: the commands of a line are carried out before the
next line is looked at.

* `Source.next?` — the next line of commands, or why it cannot be read;
* `Source.text` — a text that is read like the inside of double quotes.

Design notes: every function of the reader takes fuel, which bounds how deep it
calls itself.  A call that does not take a sign of the text is followed by one that
does after a few more, so a multiple of the length of the text is enough
(`Source.fuel`).
-/
import StyleTokens.Shell.Source

namespace StyleTokens.Shell

/-- Where the reading of pieces ends. -/
inductive Ending
  /-- At a blank or an operator; a plain word has no expansions. -/
  | blank (plain : Bool)
  /-- At a double quote, which may stand within braces. -/
  | quote (braced : Bool)
  /-- At a closing brace, unless it is protected by quotes within quotes. -/
  | brace (double inner inDocument : Bool)
  /-- At the end of a document. -/
  | document
  /-- At two closing parentheses, with some open ones before them. -/
  | arithmetic (depth : Nat)
  deriving DecidableEq, Repr, Inhabited

namespace Ending

/-- Whether the signs up to the ending are quoted. -/
def quoted : Ending → Bool
  | blank _ => false
  | brace double _ _ => double
  | quote _ | document | arithmetic _ => true

/-- Whether a brace is open. -/
def braced : Ending → Bool
  | brace .. => true
  | quote braced => braced
  | _ => false

/-- Whether the text belongs to a document. -/
def inDocument : Ending → Bool
  | brace _ _ inside => inside
  | document => true
  | _ => false

end Ending

/-- Whether a sign ends a word. -/
def endsWord (c : Char) : Bool :=
  " \t\n;&|<>()".toList.contains c

/-- Whether a sign is the name of a parameter. -/
def isSpecialSign (c : Char) : Bool :=
  "@*#?-$!".toList.contains c

/-- Pieces in reverse with one more sign. -/
def Word.addSign (quoted : Bool) (c : Char) : Word → Word
  | .text other value :: rest =>
    if other = quoted then .text quoted (c :: value) :: rest
    else .text quoted [c] :: .text other value :: rest
  | pieces => .text quoted [c] :: pieces

/-- Pieces in order from pieces in reverse. -/
def Word.ordered (pieces : Word) : Word :=
  pieces.foldl (fun word piece =>
    match piece with
    | .text quoted value => .text quoted value.reverse :: word
    | piece => piece :: word) []

/-- One statement after another. -/
def chain : Statement → Statement → Statement
  | first, .skip => first
  | .skip, second => second
  | first, second => .sequence first second

/-- How a list of commands ends. -/
inductive Extent
  /-- At the end of a line. -/
  | line
  /-- At a word or sign that ends lists, after one command at least. -/
  | filled
  /-- At a word or sign that ends lists. -/
  | any
  deriving DecidableEq, Repr, Inhabited

namespace Read

/-- The text between single quotes, from the first of them on. -/
def singleQuoted : Read (List Char) := do
  let source ← get
  let text := source.rest.takeWhile (· ≠ '\'')
  let lines := (text.filter (· = '\n')).length
  match source.rest.drop text.length with
  | [] =>
    set { source with rest := [], line := source.line + lines }
    fail "Unterminated quoted string"
  | _ :: rest =>
    set { source with rest, line := source.line + lines }
    return text

/-- The text up to a back quote, without the backslashes that protect a sign. -/
def backQuoted (fuel : Nat) (quoted : Bool) (text : List Char) : Read (List Char) :=
  match fuel with
  | 0 => fail "EOF in backquote substitution"
  | fuel + 1 => do
    match ← next with
    | none => fail "EOF in backquote substitution"
    | some '\u0060' => return text.reverse
    | some '\\' =>
      match ← nextRaw with
      | none => fail "EOF in backquote substitution"
      | some c =>
        let protects := c = '\u0060' || c = '\\' || c = '$' || (quoted && c = '"')
        backQuoted fuel quoted (if protects then c :: text else c :: '\\' :: text)
    | some c => backQuoted fuel quoted (c :: text)

/-- The sign of a redirection, behind its first sign. -/
def redirectSign (reads : Bool) (stream : Option Nat) : Read Token := do
  let found := fun (kind : RedirectKind) (usual : Nat) (cut : Bool) =>
    Token.redirect kind (stream.getD usual) cut
  if reads then
    if ← accept '<' then return found .text 0 (← accept '-')
    if ← accept '&' then return found .same 0 false
    if ← accept '>' then return found .readWrite 0 false
    return found .read 0 false
  else
    if ← accept '>' then return found .append 1 false
    if ← accept '|' then return found .clobber 1 false
    if ← accept '&' then return found .same 1 false
    return found .write 1 false

/-- What is done with a parameter in braces, whether an empty text counts as none,
and whether the brace is closed with this. -/
def modifier : Read (Option (Option Modifier × Bool × Bool)) := do
  let colon ← accept ':'
  match ← next with
  | some '\x7d' => return some (none, colon, !colon)
  | some '-' => return some (some .default, colon, false)
  | some '+' => return some (some .alternative, colon, false)
  | some '?' => return some (some .demand, colon, false)
  | some '=' => return some (some .assign, colon, false)
  | some '#' => if colon then return none else return some (some (.cutStart (← accept '#')), false, false)
  | some '%' => if colon then return none else return some (some (.cutEnd (← accept '%')), false, false)
  | _ => return none

/-- The name of a parameter in braces, and whether its size is meant. -/
def bracedName (fuel : Nat) : Read (Option (String × Bool)) := do
  let named := fun (counted : Bool) => do
    match ← peek with
    | some c =>
      if isNameStart c then
        return some (String.ofList (← takeWhile fuel isNameSign []), counted)
      else if c.isDigit then
        return some (String.ofList (← takeWhile fuel Char.isDigit []), counted)
      else return none
    | none => return none
  match ← named false with
  | some found => return some found
  | none =>
    match ← peek with
    | some '#' =>
      discard nextRaw
      match ← named true with
      | some found => return some found
      | none =>
        let source ← get
        match ← next, ← peek with
        | some c, some '\x7d' =>
          if isSpecialSign c then return some (String.singleton c, true)
          else
            set source
            return some ("#", false)
        | _, _ =>
          set source
          return some ("#", false)
    | some c =>
      if isSpecialSign c then
        discard nextRaw
        return some (String.singleton c, false)
      else return none
    | none => return none

/-- The text of an alias in place of its name, if it is one that is not being read. -/
def unfolded? (word : Word) : Read Bool := do
  let source ← get
  if source.aliases.isEmpty then return false
  let length := source.rest.length
  let expanding := source.expanding.filter fun (_, size) => size ≤ length
  match word.plain? with
  | none => return false
  | some name =>
    match source.aliases.lookup name with
    | none => return false
    | some text =>
      if (expanding.map (·.1)).contains name then return false
      set { source with
        rest := text.toList ++ source.rest, expanding := (name, length) :: expanding }
      return true

mutual

/-- The pieces up to an ending, behind those that were read, which are in reverse. -/
def pieces : Nat → Ending → Word → Read Word
  | 0, _, _ => fail "nested too deep"
  | fuel + 1, ending, before => do
    let c? ← peek
    match c? with
    | none =>
      match ending with
      | .blank _ | .document => return before.ordered
      | .arithmetic _ => fail "Missing '))'"
      | .quote _ => fail "Unterminated quoted string"
      | .brace double _ document =>
        if double && !document then fail "Unterminated quoted string" else fail "Missing '\x7d'"
    | some c =>
      let literal := do
        discard nextRaw
        pieces fuel ending (before.addSign ending.quoted c)
      if c = '\\' then
        discard nextRaw
        match ← nextRaw with
        | none => pieces fuel ending (before.addSign true '\\')
        | some d =>
          let stays := ending.quoted && d ≠ '\\' && d ≠ '\u0060' && d ≠ '$' &&
            (d ≠ '"' || (ending.inDocument && !ending.braced)) && (d ≠ '\x7d' || !ending.braced)
          let before := if stays then before.addSign true '\\' else before
          pieces fuel ending (before.addSign true d)
      else if c = '$' && ending ≠ .blank true then
        discard nextRaw
        let found ← dollar fuel ending
        match found with
        | [.text quoted ['$']] => pieces fuel ending (before.addSign quoted '$')
        | found => pieces fuel ending (found ++ before)
      else if c = '\u0060' && ending ≠ .blank true then
        discard nextRaw
        let text ← backQuoted fuel ending.quoted []
        let body ← within text do
          modify fun source => { source with line := 1 }
          list fuel .any
        pieces fuel ending (.output ending.quoted body :: before)
      else
        match ending, c with
        | .blank _, '\'' | .brace false _ _, '\'' =>
          discard nextRaw
          let text ← singleQuoted
          pieces fuel ending (.mark :: .text true text.reverse :: .mark :: before)
        | .blank _, '"' | .brace false _ _, '"' =>
          discard nextRaw
          let inner ← pieces fuel (.quote ending.braced) []
          let reverse := fun (pieces : Word) (piece : Piece) =>
            match piece with
            | .text quoted value => .text quoted value.reverse :: pieces
            | piece => piece :: pieces
          pieces fuel ending (.mark :: inner.foldl reverse (.mark :: before))
        | .quote _, '"' =>
          discard nextRaw
          return before.ordered
        | .brace true inner document, '"' =>
          discard nextRaw
          let before := if document then before else .mark :: before
          pieces fuel (.brace true (!inner) document) before
        | .brace _ false _, '\x7d' =>
          discard nextRaw
          return before.ordered
        | .arithmetic depth, '(' =>
          discard nextRaw
          pieces fuel (.arithmetic (depth + 1)) (before.addSign true '(')
        | .arithmetic (depth + 1), ')' =>
          discard nextRaw
          pieces fuel (.arithmetic depth) (before.addSign true ')')
        | .arithmetic 0, ')' =>
          discard nextRaw
          if ← accept ')' then return before.ordered
          pieces fuel ending (before.addSign true ')')
        | .blank _, _ => if endsWord c then return before.ordered else literal
        | _, _ => literal

/-- What a dollar sign stands for. -/
def dollar : Nat → Ending → Read Word
  | 0, _ => fail "nested too deep"
  | fuel + 1, ending => do
    let quoted := ending.quoted
    match ← peek with
    | some '(' =>
      discard nextRaw
      if ← accept '(' then return [.arithmetic quoted (← pieces fuel (.arithmetic 0) [])]
      let pushed := (← get).pushed
      modify fun source => { source with pushed := none }
      let body ← list fuel .any
      expect fuel (.operator ")")
      modify fun source => { source with pushed }
      return [.output quoted body]
    | some '\x7b' =>
      discard nextRaw
      return [← braces fuel ending]
    | some c =>
      if isNameStart c then
        let name ← takeWhile fuel isNameSign []
        return [.parameter quoted (String.ofList name) none]
      else if c.isDigit || isSpecialSign c then
        discard nextRaw
        return [.parameter quoted (String.singleton c) none]
      else return [.text quoted ['$']]
    | none => return [.text quoted ['$']]

/-- A parameter in braces, from its name on. -/
def braces : Nat → Ending → Read Piece
  | 0, _ => fail "nested too deep"
  | fuel + 1, ending => do
    let quoted := ending.quoted
    let inside := fun (double : Bool) => pieces fuel (.brace double false ending.inDocument) []
    match ← bracedName fuel with
    | none =>
      discard (inside quoted)
      return .bad
    | some (name, true) =>
      if ← accept '\x7d' then return .size quoted name
      discard (inside quoted)
      return .bad
    | some (name, false) =>
      match ← modifier with
      | none =>
        discard (inside quoted)
        return .bad
      | some (none, _, closed) =>
        if !closed then discard (inside quoted)
        return .parameter quoted name none
      | some (some modifier, colon, _) =>
        let cuts :=
          match modifier with
          | .cutStart _ | .cutEnd _ => true
          | _ => false
        let word ← inside (quoted && !cuts)
        return .parameter quoted name (some (modifier, colon, word))

/-- The next token as it stands. -/
def scan : Nat → Read Token
  | 0 => fail "nested too deep"
  | fuel + 1 => do
    blanks fuel
    let redirect? := fun (stream : Option Nat) => do
      if ← accept '<' then return some (← redirectSign true stream)
      if ← accept '>' then return some (← redirectSign false stream)
      return none
    match ← peek with
    | none => return .stop
    | some '\n' =>
      discard nextRaw
      return .newline
    | some '&' =>
      discard nextRaw
      return .operator (if ← accept '&' then "&&" else "&")
    | some '|' =>
      discard nextRaw
      return .operator (if ← accept '|' then "||" else "|")
    | some ';' =>
      discard nextRaw
      return .operator (if ← accept ';' then ";;" else ";")
    | some '(' =>
      discard nextRaw
      return .operator "("
    | some ')' =>
      discard nextRaw
      return .operator ")"
    | some c =>
      if let some token ← redirect? none then return token
      if c.isDigit then
        discard nextRaw
        if let some token ← redirect? (some (c.toNat - 48)) then return token
        return .word (← pieces fuel (.blank false) [.text false [c]])
      return .word (← pieces fuel (.blank false) [])

/-- The next token: behind ends of lines, as a keyword, or with an alias replaced,
where that is asked for. -/
def token : Nat → (lines keywords aliases : Bool) → Read Token
  | 0, _, _, _ => fail "nested too deep"
  | fuel + 1, lines, named, aliases => do
    let source ← get
    let found ←
      match source.pushed with
      | some token =>
        set { source with pushed := none }
        pure token
      | none => scan fuel
    match found with
    | .newline => if lines then token fuel lines named aliases else return found
    | .word word =>
      match word.plain? with
      | some name =>
        if named && keywords.contains name then return .keyword name
        if aliases then
          if ← unfolded? word then return ← token fuel lines named aliases
        return found
      | none => return found
    | _ => return found

/-- Takes a token that has to come next. -/
def expect : Nat → Token → Read Unit
  | 0, _ => fail "nested too deep"
  | fuel + 1, wanted => do
    let found ← token fuel false false false
    let same :=
      match wanted with
      | .operator text => found.isOperator text
      | .keyword name => found.isKeyword name
      | _ => false
    if !same then refuse found (some wanted)

/-- The target of a redirection. -/
def target : Nat → RedirectKind → Nat → Bool → Read Redirect
  | 0, _, _, _ => fail "nested too deep"
  | fuel + 1, kind, stream, cut => do
    if kind = .text then
      blanks fuel
      let word ←
        match ← peek with
        | some c => if endsWord c then pure none else pure (some (← pieces fuel (.blank true) []))
        | none => pure none
      match word with
      | none => refuse (← token fuel false false false)
      | some mark =>
        let body ← document mark.signs cut
        if mark.isQuoted then return .mk .text stream [.text true body]
        let line := (← get).line
        let word ← within body do
          modify fun source => { source with line := line + 1 }
          pieces fuel .document []
        return .mk .text stream word
    else
      match ← token fuel false false false with
      | .word word => return .mk kind stream word
      | other => refuse other

/-- The redirections that follow a compound command. -/
def redirects : Nat → List Redirect → Read (List Redirect)
  | 0, _ => fail "nested too deep"
  | fuel + 1, before => do
    match ← token fuel false true true with
    | .redirect kind stream cut => redirects fuel (before ++ [← target fuel kind stream cut])
    | other =>
      push other
      return before

/-- A simple command or the definition of a function, from what was read of it on.
Before the first word, aliases are replaced. -/
def simple : Nat → (line : Nat) → List (String × Word) → List Word → List Redirect → Read Statement
  | 0, _, _, _, _ => fail "nested too deep"
  | fuel + 1, line, assignments, words, found => do
    match ← token fuel false false words.isEmpty with
    | .word word =>
      match if words.isEmpty then assignment? [] word else none with
      | some pair => simple fuel line (assignments ++ [pair]) words found
      | none => simple fuel line assignments (words ++ [word]) found
    | .redirect kind stream cut =>
      simple fuel line assignments words (found ++ [← target fuel kind stream cut])
    | other =>
      match other.isOperator "(", assignments, words, found with
      | true, [], [word], [] =>
        expect fuel (.operator ")")
        let name := (word.plain?).getD ""
        if !isName name.toList || specialNames.contains name then fail "Bad function name"
        let line := (← get).line
        return .define line name (← command fuel true)
      | _, _, _, _ =>
        push other
        return .simple line assignments words found

/-- A command; `lines` says that ends of lines may come first. -/
def command : Nat → (lines : Bool) → Read Statement
  | 0, _ => fail "nested too deep"
  | fuel + 1, lines => do
    let line := (← get).line
    let close := fun (body : Statement) => do
      let found ← redirects fuel []
      return if found.isEmpty then body else .redirected line body found
    match ← token fuel lines true true with
    | .keyword "if" =>
      let body ← choice fuel
      expectKeyword fuel "fi"
      close body
    | .keyword "while" => close (← loop fuel false)
    | .keyword "until" => close (← loop fuel true)
    | .keyword "for" => close (← each fuel line)
    | .keyword "case" => close (← cases fuel line)
    | .keyword "\x7b" =>
      let body ← list fuel .filled
      expectKeyword fuel "\x7d"
      close body
    | .operator "(" =>
      let body ← list fuel .filled
      expect fuel (.operator ")")
      return .subshell line body (← redirects fuel [])
    | .word word =>
      push (.word word)
      simple fuel (← get).line [] [] []
    | .redirect kind stream cut =>
      push (.redirect kind stream cut)
      simple fuel (← get).line [] [] []
    | other => refuse other

/-- Takes a keyword that has to come next. -/
def expectKeyword : Nat → String → Read Unit
  | 0, _ => fail "nested too deep"
  | fuel + 1, name => do
    let found ← token fuel false true false
    if !found.isKeyword name then refuse found (some (.keyword name))

/-- A choice, from its condition on and without the closing keyword. -/
def choice : Nat → Read Statement
  | 0 => fail "nested too deep"
  | fuel + 1 => do
    let condition ← list fuel .filled
    expectKeyword fuel "then"
    let yes ← list fuel .filled
    match ← token fuel false true false with
    | .keyword "elif" => return .choice condition yes (← choice fuel)
    | .keyword "else" => return .choice condition yes (← list fuel .filled)
    | other =>
      push other
      return .choice condition yes .skip

/-- A loop, from its condition on. -/
def loop : Nat → Bool → Read Statement
  | 0, _ => fail "nested too deep"
  | fuel + 1, inverted => do
    let condition ← list fuel .filled
    expectKeyword fuel "do"
    let body ← list fuel .filled
    expectKeyword fuel "done"
    return .loop inverted condition body

/-- A loop over words, from its variable on. -/
def each : Nat → Nat → Read Statement
  | 0, _ => fail "nested too deep"
  | fuel + 1, line => do
    let name :=
      match ← token fuel false false false with
      | .word word => (word.plain?).getD ""
      | _ => ""
    if !isName name.toList then fail "Bad for loop variable"
    let words ←
      match ← token fuel true true true with
      | .keyword "in" => pure (some (← wordList fuel []))
      | .operator ";" => pure none
      | other =>
        push other
        pure none
    let first ← token fuel true true true
    if !first.isKeyword "do" then refuse first (some (.keyword "do"))
    let body ← list fuel .filled
    expectKeyword fuel "done"
    return .each line name words body

/-- The words up to the end of a line or a semicolon. -/
def wordList : Nat → List Word → Read (List Word)
  | 0, _ => fail "nested too deep"
  | fuel + 1, before => do
    match ← token fuel false false false with
    | .word word => wordList fuel (before ++ [word])
    | .newline | .operator ";" => return before
    | other => refuse other

/-- A distinction of cases, from its subject on. -/
def cases : Nat → Nat → Read Statement
  | 0, _ => fail "nested too deep"
  | fuel + 1, line => do
    match ← token fuel false false false with
    | .word subject =>
      let found ← token fuel true true true
      if !found.isKeyword "in" then refuse found (some (.keyword "in"))
      return .cases line subject (← arms fuel [])
    | other => refuse other (some (.word []))

/-- The arms of a distinction of cases, with the closing keyword. -/
def arms : Nat → List (List Word × Statement) → Read (List (List Word × Statement))
  | 0, _ => fail "nested too deep"
  | fuel + 1, before => do
    let first ← token fuel true true false
    if first.isKeyword "esac" then return before
    let first ← if first.isOperator "(" then token fuel false false false else pure first
    let patterns ← alternatives fuel first
    let body ← list fuel .any
    let before := before ++ [(patterns, body)]
    let found ← token fuel true true false
    if found.isKeyword "esac" then return before
    if !found.isOperator ";;" then refuse found (some (.operator ";;"))
    arms fuel before

/-- Words with bars between them up to a parenthesis; `first` has been read. -/
def alternatives : Nat → Token → Read (List Word)
  | 0, _ => fail "nested too deep"
  | fuel + 1, first => do
    let word : Word :=
      match first with
      | .word word => word
      | .keyword name => [.text false name.toList]
      | _ => []
    let found ← token fuel false false false
    if found.isOperator "|" then
      let next ← token fuel false false false
      return word :: (← alternatives fuel next)
    if !found.isOperator ")" then refuse found (some (.operator ")"))
    return [word]

/-- Commands with bars between them, perhaps negated; `lines` says that ends of lines
may come first. -/
def pipeline : Nat → (lines : Bool) → Read Statement
  | 0, _ => fail "nested too deep"
  | fuel + 1, lines => do
    let first ← token fuel lines true true
    let negated := first.isKeyword "!"
    if !negated then push first
    let body :=
      match ← stages fuel [← command fuel false] with
      | [single] => single
      | all => .pipeline all
    return if negated then .negated body else body

/-- The stages of a pipeline, behind those that were read. -/
def stages : Nat → List Statement → Read (List Statement)
  | 0, _ => fail "nested too deep"
  | fuel + 1, before => do
    let found ← token fuel false false false
    if found.isOperator "|" then stages fuel (before ++ [← command fuel true])
    else
      push found
      return before

/-- Pipelines with `&&` and `||` between them; `first` has been read. -/
def conjunction : Nat → Statement → Read Statement
  | 0, _ => fail "nested too deep"
  | fuel + 1, first => do
    let found ← token fuel false false false
    if found.isOperator "&&" then conjunction fuel (.both first (← pipeline fuel true))
    else if found.isOperator "||" then conjunction fuel (.either first (← pipeline fuel true))
    else
      push found
      return first

/-- A list of commands. -/
def list : Nat → Extent → Read Statement
  | 0, _ => fail "nested too deep"
  | fuel + 1, extent => do
    let found ← token fuel (extent ≠ .line) true true
    match found with
    | .newline => return .skip
    | .stop =>
      push .stop
      return .skip
    | _ =>
      push found
      if extent = .any && found.isEnd then return .skip
      let line := (← get).line
      let first ← conjunction fuel (← pipeline fuel false)
      let after := if extent = .line then Extent.line else .any
      match ← token fuel false false false with
      | .operator "&" => return chain (.background line first) (← list fuel after)
      | .operator ";" => return chain first (← list fuel after)
      | .newline =>
        push .newline
        return chain first (← list fuel after)
      | .stop =>
        push .stop
        return first
      | other =>
        if extent = .line then refuse other
        push other
        return first

end

end Read

namespace Source

/-- Fuel that suffices for what is left. -/
def fuel (source : Source) : Nat :=
  let aliases := source.aliases.foldl (fun size (_, text) => size + text.length) 0
  16 * (source.rest.length + 4) * (if aliases = 0 then 1 else aliases + 1)

/-- Whether all has been read, up to an end without an end of line before it. -/
def isOver (source : Source) : Bool :=
  match source.pushed with
  | some .stop => true
  | _ => false

/-- The next line of commands and what is left then; nothing at the end. -/
def next? (source : Source) : Except BadScript (Option (Statement × Source)) :=
  if source.isOver || (source.rest.isEmpty && source.pushed.isNone) then return none
  else (Read.list source.fuel .line).run source

/-- A text that is read like the inside of double quotes, as far as this is possible. -/
def text (value : String) : Word :=
  let source : Source := { rest := value.toList }
  match (Read.pieces source.fuel .document []).run source with
  | .ok (word, _) => word
  | .error _ => [.text true value.toList]

end Source

end StyleTokens.Shell
