/-
What can go wrong, by cause.

* `Fault` — the kinds of failure, each with what it is about;
* `Fault.message` — the failure in words;
* `Fault.exitCode` — the code with which a command ends that fails so;
* `exists_of_mem_mapM` — where the parts of a result come from.

Design notes: a failure is told apart by its constructor, never by its text.
The texts of `Misuse` and `RuleFlaw` are parts of the texts of `Fault`.
-/
import StyleTokens.Category
import StyleTokens.Pattern.Basic
import StyleTokens.Text.Quoted

namespace StyleTokens

/-- Why the file system refuses. -/
inductive IoCause
  | notFound
  | alreadyExists
  | notDirectory
  | isDirectory
  | noSpace
  | tooManyLinks
  | badStream
  | noReader
  | notPermitted
  | permissionDenied
  | nameTooLong
  | notUtf8
  | nulInName
  | notEmpty
  | other (text : String)
  deriving DecidableEq, Repr, Inhabited

/-- The refusal in words. -/
def IoCause.message : IoCause → String
  | notFound => "No such file or directory (os error 2)"
  | alreadyExists => "File exists (os error 17)"
  | notDirectory => "Not a directory (os error 20)"
  | isDirectory => "Is a directory (os error 21)"
  | noSpace => "No space left on device (os error 28)"
  | nameTooLong => "File name too long (os error 36)"
  | notEmpty => "Directory not empty (os error 39)"
  | tooManyLinks => "Too many levels of symbolic links (os error 40)"
  | badStream => "Bad file descriptor (os error 9)"
  | noReader => "Broken pipe (os error 32)"
  | notPermitted => "Operation not permitted (os error 1)"
  | permissionDenied => "Permission denied (os error 13)"
  | notUtf8 => "stream did not contain valid UTF-8"
  | nulInName => "file name contained an unexpected NUL byte"
  | other text => text

/-- What is wrong with a rule. -/
inductive RuleFlaw
  | noId
  | unreadable (flaw : Flaw)
  | noValueGroup
  | matchesEmptyText
  | repeatedId (ruleSet : String)
  | other (text : String)
  deriving DecidableEq, Repr, Inhabited

/-- The flaw in words. -/
def RuleFlaw.message : RuleFlaw → String
  | noId => "rule id cannot be empty"
  | unreadable flaw => flaw.message
  | noValueGroup => "pattern has no named capture group \u0060value\u0060"
  | matchesEmptyText => "pattern matches empty text"
  | repeatedId ruleSet => "duplicate rule id in rule set " ++ ruleSet
  | other text => text

/-- A request or a file that makes no sense. -/
inductive Misuse
  | unknownCategory (text : String)
  | emptyMapping (category : Category)
  | noRules (ruleSet : String)
  | schemaVersion (found expected : String)
  | noRuleSets
  | zeroTimeout
  | duration (text : String)
  | noFileList (report : String)
  | parentInEntry (entry : String)
  | unwalkable (root : String) (cause : IoCause)
  | shortBackup (file : String) (written expected : Nat)
  | checksum (backup : String)
  | noFreeName (file directory : String)
  | notADirectory (directory : String)
  | zeroBatchSize
  | zeroGateTimeout
  | other (text : String)
  deriving DecidableEq, Repr, Inhabited

/-- The misuse in words. -/
def Misuse.message : Misuse → String
  | unknownCategory text => "unknown category: " ++ text
  | emptyMapping category =>
    "mapping entry in category " ++ category.label ++ " has an empty literal or token"
  | noRules ruleSet => "rule set " ++ ruleSet ++ " has no rules"
  | schemaVersion found expected =>
    "unsupported config schema_version " ++ Text.quoted found ++ " (expected " ++ expected ++ ")"
  | noRuleSets => "config defines no rule sets"
  | zeroTimeout => "gate timeout_seconds must be > 0"
  | duration text =>
    "invalid duration " ++ Text.quoted text ++ ": expected e.g. 300, 90s, 5m or 1500ms"
  | noFileList report => "issue report " ++ report ++ " has no recognizable file list"
  | parentInEntry entry =>
    "issue report entry " ++ Text.quoted entry ++ " must not contain \u0060..\u0060"
  | unwalkable root cause =>
    "walk " ++ root ++ ": IO error for operation on " ++ root ++ ": " ++ cause.message
  | shortBackup file written expected =>
    "backup of " ++ file ++ " is " ++ toString written ++ " bytes, expected " ++ toString expected
  | checksum backup => "backup " ++ backup ++ " does not match its recorded checksum"
  | noFreeName file directory => "no free report name for " ++ file ++ " under " ++ directory
  | notADirectory directory => "output directory " ++ directory ++ " is not a directory"
  | zeroBatchSize => "--batch-size must be greater than 0"
  | zeroGateTimeout => "--gate-timeout must be greater than 0"
  | other text => text

/-- A failure. -/
inductive Fault
  | io (cause : IoCause)
  | json (detail : String)
  | pattern (rule : String) (flaw : RuleFlaw)
  | duplicateMapping (category : String) (literal : String)
  | unknownRuleSet (name : String)
  | invalidArgument (misuse : Misuse)
  | missingPath (path : String)
  | glob (pattern : String) (detail : String)
  | gateFailed (status : String)
  | reportUnwritten (directory : String) (detail : String)
  | exit (code : Int) (text : String)
  deriving DecidableEq, Repr, Inhabited

namespace Fault

/-- The failure in words. -/
def message : Fault → String
  | io cause => "I/O error: " ++ cause.message
  | json detail => "JSON error: " ++ detail
  | pattern rule flaw => "invalid pattern for rule " ++ rule ++ ": " ++ flaw.message
  | duplicateMapping category literal =>
    "duplicate mapping for literal " ++ Text.quoted literal ++ " in category " ++ category
  | unknownRuleSet name => "rule set not found: " ++ name
  | invalidArgument misuse => "invalid argument: " ++ misuse.message
  | missingPath path => "required path does not exist: " ++ path
  | glob source detail => "invalid glob " ++ Text.quoted source ++ ": " ++ detail
  | gateFailed status => "compile gate did not pass: " ++ status
  | reportUnwritten directory detail =>
    "batch was applied but its report could not be written to " ++ directory ++ ": " ++ detail
  | exit _ text => text

/-- The exit code: 1 after a gate that did not pass, 3 after a report that was
lost, and 2 for all that fails before a file is touched. -/
def exitCode : Fault → Int
  | exit code _ => code
  | gateFailed _ => 1
  | reportUnwritten _ _ => 3
  | _ => 2

end Fault

/-- Each part of a result comes from one of the values that were gone through. -/
theorem exists_of_mem_mapM {α β ε : Type} {f : α → Except ε β} {values : List α}
    {results : List β} {result : β} (h : values.mapM f = .ok results) (hm : result ∈ results) :
    ∃ value ∈ values, f value = .ok result := by
  induction values generalizing results with
  | nil =>
    obtain rfl : [] = results := Except.ok.inj h
    cases hm
  | cons value values ih =>
    rw [List.mapM_cons] at h
    cases hfirst : f value with
    | error fault =>
      rw [hfirst] at h
      cases h
    | ok first =>
      cases hrest : values.mapM f with
      | error fault =>
        rw [hfirst, hrest] at h
        cases h
      | ok rest =>
        rw [hfirst, hrest] at h
        obtain rfl : first :: rest = results := Except.ok.inj h
        rcases List.mem_cons.1 hm with rfl | hm
        · exact ⟨value, List.mem_cons_self, hfirst⟩
        · obtain ⟨other, ho, hother⟩ := ih hrest hm
          exact ⟨other, List.mem_cons_of_mem _ ho, hother⟩

end StyleTokens
