/-
Signals by their numbers, names and words, and how processes end by them.

* `Signal.names` — the names from the first signal on;
* `Signal.number?` — the number of a name or a number;
* `Exit.status` — the end of a process as a status;
* `Exit.message` — the end of a process in words.
-/
import StyleTokens.Shell.World

namespace StyleTokens.Shell

namespace Signal

/-- The signals from the first one on: their names, and what they mean. -/
def table : List (String × String) := [
  ("HUP", "Hangup"), ("INT", "Interrupt"), ("QUIT", "Quit"), ("ILL", "Illegal instruction"),
  ("TRAP", "Trace/breakpoint trap"), ("ABRT", "Aborted"), ("BUS", "Bus error"),
  ("FPE", "Floating point exception"), ("KILL", "Killed"), ("USR1", "User defined signal 1"),
  ("SEGV", "Segmentation fault"), ("USR2", "User defined signal 2"), ("PIPE", "Broken pipe"),
  ("ALRM", "Alarm clock"), ("TERM", "Terminated"), ("16", "Stack fault"),
  ("CHLD", "Child exited"), ("CONT", "Continued"), ("STOP", "Stopped (signal)"),
  ("TSTP", "Stopped"), ("TTIN", "Stopped (tty input)"), ("TTOU", "Stopped (tty output)"),
  ("URG", "Urgent I/O condition"), ("XCPU", "CPU time limit exceeded"),
  ("XFSZ", "File size limit exceeded"), ("VTALRM", "Virtual timer expired"),
  ("PROF", "Profiling timer expired"), ("WINCH", "Window changed"), ("IO", "I/O possible"),
  ("PWR", "Power failure"), ("SYS", "Bad system call")]

/-- The number behind the last signal. -/
def count : Nat := 65

/-- The lowest of the signals that have no meaning of their own. -/
def lowest : Nat := 34

/-- The name of a signal. -/
def name (number : Nat) : String :=
  if number = 0 then "EXIT"
  else
    match table[number - 1]? with
    | some (name, _) => name
    | none =>
      if number = lowest then "RTMIN"
      else if number = count - 1 then "RTMAX"
      else if number ≤ 49 && lowest < number then "RTMIN+" ++ toString (number - lowest)
      else if lowest < number then "RTMAX-" ++ toString (count - 1 - number)
      else toString number

/-- What a signal means. -/
def words (number : Nat) : String :=
  match table[number - 1]? with
  | some (_, words) => words
  | none =>
    if lowest ≤ number then "Real-time signal " ++ toString (number - lowest)
    else "Unknown signal " ++ toString number

/-- The number that a name, in letters of either size, or a number stands for. -/
def number? (least : Nat) (text : String) : Option Nat :=
  if !text.isEmpty && text.all Char.isDigit then text.toNat?.filter (· < count)
  else
    let isNamed := fun (number : Nat) =>
      (name number).map Char.toUpper = text.map Char.toUpper
    (List.range count).find? fun number => least ≤ number && isNamed number

end Signal

namespace Exit

/-- The end of a process as a status. -/
def code : Exit → Nat
  | status code => code
  | signal number => 128 + number

/-- What is told of a process that a signal has ended. -/
def complaint? : Exit → Option String
  | status _ => none
  | signal number => if number = 2 || number = 13 then none else some (Signal.words number)

/-- The end of a process in words. -/
def message : Exit → String
  | status 0 => "Done"
  | status code => "Done(" ++ toString code ++ ")"
  | signal number => Signal.words number

end Exit

end StyleTokens.Shell
