/-
The limit of a gate is what is typed for it.

A length of time is spelled with decimal digits and a unit behind them, or none; there may be
white space in between and around it all.  Nothing else is taken for one.  The number is the one
that the digits denote, zeros in front of it do not count, and each unit stands for its number of
milliseconds.  What does not fit 64 bits is refused and never cut down to them.

* `TimeUnit`, `Spelling` — how lengths of time are spelled, and how long they are;
* `decimal_eq_ofDigits` — the number is the one that the digits denote;
* `parse_of_spelling`, `parse_of_not_spelled` — each spelling is read or refused by its number,
  and all else is refused;
* `read_alike_iff` — spellings of one length of time are read alike, and no others are;
* `RunOptions.limit_of_gate?` — a gate has the limit that is typed, and no empty one;
* `parse_exact` — all of it.
-/
import Mathlib.Data.Nat.Digits.Defs
import StyleTokens.Command.Run
import StyleTokens.Proofs.Text.Runs

namespace StyleTokens

open Text

namespace Duration

/-- What the number of a length of time counts; `plain` is a number without a unit, which counts
seconds. -/
inductive TimeUnit
  | plain
  | seconds
  | milliseconds
  | minutes
  deriving DecidableEq, Repr

namespace TimeUnit

/-- How a unit is written. -/
def sign : TimeUnit → List Char
  | plain => []
  | seconds => ['s']
  | milliseconds => ['m', 's']
  | minutes => ['m']

/-- The milliseconds of a unit. -/
def scale : TimeUnit → Nat
  | plain => 1000
  | seconds => 1000
  | milliseconds => 1
  | minutes => 60 * 1000

theorem trim_sign (unit : TimeUnit) : trim unit.sign = unit.sign := by
  cases unit <;> decide

theorem isDigit_of_mem_sign {unit : TimeUnit} : ∀ c ∈ unit.sign, c.isDigit = false := by
  cases unit <;> simp [sign]

end TimeUnit

/-- A number with its unit, and white space between them. -/
structure Spelling where
  digits : List Char
  gap : List Char
  unit : TimeUnit
  digits_ne_nil : digits ≠ []
  isDigit_digits : ∀ c ∈ digits, c.isDigit = true
  allBlank_gap : allBlank gap = true

namespace Spelling

/-- What is typed. -/
def text (spelling : Spelling) : List Char :=
  spelling.digits ++ (spelling.gap ++ spelling.unit.sign)

/-- The number that the digits denote. -/
def number (spelling : Spelling) : Nat :=
  Nat.ofDigits 10 (spelling.digits.reverse.map fun c => c.toNat - '0'.toNat)

/-- The length of time in milliseconds. -/
def amount (spelling : Spelling) : Nat :=
  spelling.number * spelling.unit.scale

/-- The number fits 64 bits, and so does the number of seconds in minutes. -/
def Fits (spelling : Spelling) : Prop :=
  spelling.number < Count.bound ∧
    (spelling.unit = .minutes → 60 * spelling.number < Count.bound)

instance (spelling : Spelling) : Decidable spelling.Fits := by
  unfold Fits
  infer_instance

variable {spelling : Spelling}

/-- The digits end where the white space or the unit begins. -/
theorem isDigit_of_mem_rest : ∀ c ∈ spelling.gap ++ spelling.unit.sign, c.isDigit = false := by
  intro c hc
  rcases List.mem_append.1 hc with hgap | hsign
  · by_contra hdigit
    have hrange := Char.isDigit_iff_toNat.1 (Bool.eq_true_of_not_eq_false hdigit)
    have hblank : isBlank c = true := List.all_eq_true.1 spelling.allBlank_gap c hgap
    rw [isBlank_of_visible (le_trans (by decide) hrange.1) (hrange.2.trans (by decide))] at hblank
    cases hblank
  · exact TimeUnit.isDigit_of_mem_sign c hsign

theorem span_text : spelling.text.takeWhile Char.isDigit = spelling.digits ∧
    spelling.text.dropWhile Char.isDigit = spelling.gap ++ spelling.unit.sign :=
  span_append spelling.isDigit_digits fun c hc =>
    isDigit_of_mem_rest c (List.mem_of_mem_head? hc)

theorem trim_rest : trim (spelling.gap ++ spelling.unit.sign) = spelling.unit.sign := by
  have hnone : allBlank ([] : List Char) = true := rfl
  have hcut := trim_surround spelling.allBlank_gap spelling.unit.sign hnone
  rwa [List.append_nil, TimeUnit.trim_sign] at hcut

end Spelling

variable {text : String}

/-- A text that begins with digits and goes on with a unit is a spelling. -/
theorem exists_spelling {text : List Char} {unit : TimeUnit}
    (hdigits : (trim text).takeWhile Char.isDigit ≠ [])
    (hunit : trim ((trim text).dropWhile Char.isDigit) = unit.sign) :
    ∃ spelling : Spelling, trim text = spelling.text := by
  have hrest : trimLeft ((trim text).dropWhile Char.isDigit) = unit.sign := by
    rw [← trim_of_suffix (List.dropWhile_suffix _), hunit]
  refine ⟨{
    digits := (trim text).takeWhile Char.isDigit
    gap := ((trim text).dropWhile Char.isDigit).takeWhile isBlank
    unit
    digits_ne_nil := hdigits
    isDigit_digits := fun c hc => List.mem_takeWhile_imp hc
    allBlank_gap := List.all_eq_true.2 fun c hc => List.mem_takeWhile_imp hc }, ?_⟩
  rw [Spelling.text, ← hrest, trimLeft, List.takeWhile_append_dropWhile,
    List.takeWhile_append_dropWhile]

/-- The last digit counts once, and each other one ten times what the next one does. -/
theorem decimal_eq_ofDigits (digits : List Char) :
    decimal digits = Nat.ofDigits 10 (digits.reverse.map fun c => c.toNat - '0'.toNat) := by
  rw [Nat.ofDigits_eq_foldr, List.foldr_map, List.foldr_reverse, decimal]
  refine congrArg (List.foldl · 0 digits) (funext fun n => funext fun c => ?_)
  rw [Nat.mul_comm, Nat.add_comm]
  rfl

theorem ofUnit?_sign (n : Nat) (unit : TimeUnit) : ofUnit? n unit.sign =
    if unit = .minutes → 60 * n < Count.bound then some ⟨n * unit.scale⟩ else none := by
  cases unit with
  | plain => rfl
  | seconds => rfl
  | milliseconds => simp [ofUnit?, TimeUnit.sign, TimeUnit.scale]
  | minutes => simp [ofUnit?, TimeUnit.sign, TimeUnit.scale, ofSeconds, Nat.mul_comm, Nat.mul_assoc]

/-- What is no unit makes no length of time. -/
theorem ofUnit?_eq_none {sign : List Char} (h : ∀ unit : TimeUnit, sign ≠ unit.sign) (n : Nat) :
    ofUnit? n sign = none := by
  have hplain : sign ≠ [] := h .plain
  have hseconds : sign ≠ ['s'] := h .seconds
  have hmilliseconds : sign ≠ ['m', 's'] := h .milliseconds
  have hminutes : sign ≠ ['m'] := h .minutes
  simp [ofUnit?, hplain, hseconds, hmilliseconds, hminutes]

/-- **A spelling is read as the length of time that it stands for**, if its number fits. -/
theorem parse_of_spelling {spelling : Spelling} (h : trim text.toList = spelling.text) :
    parse text = if spelling.Fits then .ok ⟨spelling.amount⟩
      else .error (.invalidArgument (.duration text)) := by
  have hdigits : spelling.digits.isEmpty = false := by simpa using spelling.digits_ne_nil
  unfold parse
  dsimp only
  rw [h, Spelling.span_text.1, Spelling.span_text.2, Spelling.trim_rest,
    decimal_eq_ofDigits, ← Spelling.number, ofUnit?_sign, hdigits, Bool.false_or]
  by_cases hnumber : spelling.number < Count.bound
  · rw [if_neg (by simpa using hnumber)]
    by_cases hunit : spelling.unit = .minutes → 60 * spelling.number < Count.bound
    · rw [if_pos hunit, if_pos (show spelling.Fits from ⟨hnumber, hunit⟩)]
      rfl
    · rw [if_neg hunit, if_neg fun hfits : spelling.Fits => hunit hfits.2]
      rfl
  · rw [if_pos (by simpa using hnumber), if_neg fun hfits : spelling.Fits => hnumber hfits.1]
    rfl

/-- **What is no spelling is refused.** -/
theorem parse_of_not_spelled (h : ∀ spelling : Spelling, trim text.toList ≠ spelling.text) :
    parse text = .error (.invalidArgument (.duration text)) := by
  have hread (n : Nat) : (if ((trim text.toList).takeWhile Char.isDigit).isEmpty || n ≥ Count.bound
      then none
      else ofUnit? n (trim ((trim text.toList).dropWhile Char.isDigit))) = none := by
    split
    · rfl
    · next hcut =>
      -- a unit behind the digits would make the text a spelling
      refine ofUnit?_eq_none (fun unit hunit => ?_) n
      obtain ⟨spelling, htext⟩ := exists_spelling (fun hnil => hcut (by rw [hnil]; rfl)) hunit
      exact h spelling htext
  unfold parse
  dsimp only
  rw [hread]
  rfl

/-- A text is a spelling that fits, and read as what it stands for, or it is refused. -/
theorem parse_cases (text : String) :
    (∃ spelling : Spelling, trim text.toList = spelling.text ∧ spelling.Fits ∧
      parse text = .ok ⟨spelling.amount⟩) ∨
    (∀ spelling : Spelling, trim text.toList = spelling.text → ¬ spelling.Fits) ∧
      parse text = .error (.invalidArgument (.duration text)) := by
  by_cases hspelled : ∃ spelling : Spelling, trim text.toList = spelling.text
  · obtain ⟨spelling, htext⟩ := hspelled
    have hparse := parse_of_spelling htext
    by_cases hfits : spelling.Fits
    · exact Or.inl ⟨spelling, htext, hfits, by rw [hparse, if_pos hfits]⟩
    · refine Or.inr ⟨fun other hother hfits' => ?_, by rw [hparse, if_neg hfits]⟩
      rw [parse_of_spelling hother, if_pos hfits', if_neg hfits] at hparse
      cases hparse
  · exact Or.inr ⟨fun spelling htext => absurd ⟨spelling, htext⟩ hspelled,
      parse_of_not_spelled (not_exists.1 hspelled)⟩

/-- The texts that are read are the spellings that fit. -/
theorem parse_eq_ok_iff {duration : Duration} : parse text = .ok duration ↔
    ∃ spelling : Spelling, trim text.toList = spelling.text ∧ spelling.Fits ∧
      duration.milliseconds = spelling.amount := by
  constructor
  · intro h
    obtain ⟨spelling, htext, hfits, hparse⟩ | ⟨-, hparse⟩ := parse_cases text
    · rw [h] at hparse
      cases hparse
      exact ⟨spelling, htext, hfits, rfl⟩
    · rw [h] at hparse
      cases hparse
  · rintro ⟨spelling, htext, hfits, hamount⟩
    rw [parse_of_spelling htext, if_pos hfits, ← hamount]

/-- All other texts are refused, each with a complaint about itself. -/
theorem parse_eq_error_iff : parse text = .error (.invalidArgument (.duration text)) ↔
    ∀ spelling : Spelling, trim text.toList = spelling.text → ¬ spelling.Fits := by
  constructor
  · intro h spelling htext hfits
    rw [parse_of_spelling htext, if_pos hfits] at h
    cases h
  · intro h
    obtain ⟨spelling, htext, hfits, -⟩ | ⟨-, hparse⟩ := parse_cases text
    · exact absurd hfits (h spelling htext)
    · exact hparse

/-- The seconds of a length of time that is read fit 64 bits. -/
theorem seconds_lt_of_parse {duration : Duration} (h : parse text = .ok duration) :
    duration.seconds < Count.bound := by
  obtain ⟨spelling, -, ⟨hnumber, hminutes⟩, hamount⟩ := parse_eq_ok_iff.1 h
  rw [seconds, hamount, Spelling.amount]
  cases hunit : spelling.unit with
  | plain | seconds | milliseconds =>
    rw [TimeUnit.scale]
    omega
  | minutes =>
    have hseconds := hminutes hunit
    rw [TimeUnit.scale]
    omega

/-- Spellings of one length of time are read alike, and those of different ones are not. -/
theorem read_alike_iff {other : String} {first second : Spelling}
    (hfirst : trim text.toList = first.text) (hfits : first.Fits)
    (hsecond : trim other.toList = second.text) (hfits' : second.Fits) :
    (∃ duration, parse text = .ok duration ∧ parse other = .ok duration) ↔
      first.amount = second.amount := by
  rw [parse_of_spelling hfirst, if_pos hfits, parse_of_spelling hsecond, if_pos hfits']
  constructor
  · rintro ⟨duration, hone, htwo⟩
    exact Duration.mk.inj (Except.ok.inj (hone.trans htwo.symm))
  · intro hsame
    exact ⟨_, rfl, by rw [hsame]⟩

end Duration

/-- **A gate has the limit that is typed**, and some time in any case. -/
theorem RunOptions.limit_of_gate? {text : String} {options : RunOptions} {setup : Setup}
    {root outDir : Path} {gate : Gate} (htext : options.gateTimeout = some text)
    (h : options.gate? setup root outDir = .ok (some gate)) :
    Duration.parse text = .ok gate.limit ∧ 0 < gate.limit.milliseconds := by
  unfold gate? at h
  rw [htext] at h
  split at h
  · cases h
  split at h
  · cases h
  split at h
  · cases h
  dsimp only at h
  cases hlimit : Duration.parse text with
  | error fault =>
    rw [hlimit] at h
    cases h
  | ok limit =>
    rw [hlimit] at h
    change (if limit.milliseconds = 0 then _ else _) = _ at h
    split at h
    · cases h
    · next hzero =>
      cases h
      exact ⟨rfl, Nat.pos_of_ne_zero hzero⟩

namespace Duration

/-- **A length of time is read exactly.**  A text is accepted if it is a spelling when the white
space around it is trimmed, and if the number in it fits 64 bits, as well as the seconds that a
number of minutes makes.  It is read as that number times the milliseconds of its unit, and the
seconds of the result fit 64 bits.  Any other text is refused with a complaint about itself.  Two
accepted texts are read alike exactly if they spell the same length of time.  Where the limit of a
gate is typed, the gate has it. -/
theorem parse_exact (text : String) :
    (∀ duration, parse text = .ok duration ↔ ∃ spelling : Spelling,
      trim text.toList = spelling.text ∧ spelling.Fits ∧
        duration.milliseconds = spelling.amount) ∧
    (∀ duration, parse text = .ok duration → duration.seconds < Count.bound) ∧
    (parse text = .error (.invalidArgument (.duration text)) ↔ ∀ spelling : Spelling,
      trim text.toList = spelling.text → ¬ spelling.Fits) ∧
    (∀ other (first second : Spelling),
      trim text.toList = first.text → first.Fits →
      trim other.toList = second.text → second.Fits →
        ((∃ duration, parse text = .ok duration ∧ parse other = .ok duration) ↔
          first.amount = second.amount)) ∧
    ∀ (options : RunOptions) (setup : Setup) (root outDir : Path) (gate : Gate),
      options.gateTimeout = some text → options.gate? setup root outDir = .ok (some gate) →
        parse text = .ok gate.limit ∧ 0 < gate.limit.milliseconds :=
  ⟨fun _ => parse_eq_ok_iff, fun _ => seconds_lt_of_parse, parse_eq_error_iff,
    fun _ _ _ hfirst hfits hsecond hfits' => read_alike_iff hfirst hfits hsecond hfits',
    fun _ _ _ _ _ htext hgate => RunOptions.limit_of_gate? htext hgate⟩

example : parse "307445734561825860 m" = .ok ⟨18446744073709551600000⟩ ∧
    parse "307445734561825861 m" =
      .error (.invalidArgument (.duration "307445734561825861 m")) := by
  decide

end Duration

namespace Sample

open Duration

/-- Five minutes, with a wide space in front of the unit. -/
def fiveMinutes : Spelling where
  digits := ['5']
  gap := ['\u2003']
  unit := .minutes
  digits_ne_nil := by decide
  isDigit_digits := List.all_eq_true.1 (by decide)
  allBlank_gap := by decide

/-- As many milliseconds, with a zero in front. -/
def asMilliseconds : Spelling where
  digits := ['0', '3', '0', '0', '0', '0', '0']
  gap := []
  unit := .milliseconds
  digits_ne_nil := by decide
  isDigit_digits := List.all_eq_true.1 (by decide)
  allBlank_gap := by decide

/-- A request with a gate that may take five minutes. -/
def patient : RunOptions where
  ruleSet := "radius"
  gateCommand := some "make"
  gateTimeout := some " 5\u2003m"

/-- Its gate. -/
def patientGate : Gate where
  command := "make"
  directory := ⟨"p"⟩
  limit := ⟨300000⟩
  logDirectory := (⟨"out"⟩ : Path).child "gate-logs"

/-- Both are the same five minutes, and the gate has them. -/
theorem fiveMinutes_read :
    (trim " 5\u2003m".toList = fiveMinutes.text ∧ fiveMinutes.Fits ∧
      parse " 5\u2003m" = .ok ⟨300000⟩ ∧ (⟨300000⟩ : Duration).seconds < Count.bound) ∧
    (trim "0300000ms\n".toList = asMilliseconds.text ∧ asMilliseconds.Fits ∧
      ∃ duration, parse " 5\u2003m" = .ok duration ∧ parse "0300000ms\n" = .ok duration) ∧
    patient.gateTimeout = some " 5\u2003m" ∧
      patient.gate? ⟨Builtin.configuration, .empty, []⟩ ⟨"p"⟩ ⟨"out"⟩ = .ok (some patientGate) ∧
      parse " 5\u2003m" = .ok patientGate.limit ∧ 0 < patientGate.limit.milliseconds := by
  obtain ⟨hok, hseconds, -, halike, hgate⟩ := parse_exact " 5\u2003m"
  have hfirst : trim " 5\u2003m".toList = fiveMinutes.text := by decide
  have hfits : fiveMinutes.Fits := by decide
  have hread : parse " 5\u2003m" = .ok ⟨300000⟩ := (hok _).2 ⟨_, hfirst, hfits, by decide⟩
  have hsecond : trim "0300000ms\n".toList = asMilliseconds.text := by decide
  have hfits' : asMilliseconds.Fits := by decide
  have hgiven : patient.gate? ⟨Builtin.configuration, .empty, []⟩ ⟨"p"⟩ ⟨"out"⟩ =
      .ok (some patientGate) := by rfl
  exact ⟨⟨hfirst, hfits, hread, hseconds _ hread⟩,
    ⟨hsecond, hfits', (halike _ _ _ hfirst hfits hsecond hfits').2 (by decide)⟩,
    rfl, hgiven, hgate _ _ _ _ _ rfl hgiven⟩

end Sample

end StyleTokens
