/-
Reading what was written of JSON: strings and numbers.

* `run_bind_of_ok` — a reader that has read something goes on behind it;
* `run_string?` — a string that was quoted is read as it was;
* `run_number` — so is an integer that 64 bits hold, if no digit, point or exponent
  comes behind it.
-/
import Mathlib.Data.List.Basic
import StyleTokens.Json.Reader
import StyleTokens.Json.Writer
import StyleTokens.Proofs.Text.Runs

namespace StyleTokens.Json

variable {α β : Type} {text rest : List Char} {c sign : Char}

/-! ### Signs -/

/-- What is read behind a value. -/
theorem run_bind_of_ok {reader : Read α} {next : α → Read β} {value : α}
    (h : reader.run text = .ok (value, rest)) :
    (reader >>= next).run text = (next value).run rest := by
  rw [StateT.run_bind, h]
  rfl

theorem run_skipSpace {blanks : List Char} (hb : ∀ b ∈ blanks, isSpace b = true)
    (hc : isSpace c = false) : skipSpace.run (blanks ++ c :: rest) = .ok ((), c :: rest) := by
  have hdrop : (blanks ++ c :: rest).dropWhile isSpace = c :: rest := by
    rw [List.dropWhile_append_of_pos hb, List.dropWhile_cons_of_neg (by simp [hc])]
  exact congrArg (fun left => Except.ok ((), left)) hdrop

theorem run_nextSign {blanks : List Char} (hb : ∀ b ∈ blanks, isSpace b = true)
    (hc : isSpace c = false) : nextSign.run (blanks ++ c :: rest) = .ok (c, c :: rest) := by
  rw [nextSign, run_bind_of_ok (run_skipSpace hb hc)]
  rfl

theorem run_nextSign_of_first (hc : isSpace c = false) :
    nextSign.run (c :: rest) = .ok (c, c :: rest) :=
  @run_nextSign rest c [] (by simp) hc

theorem run_expect (sign : String) : (expect sign).run (sign.toList ++ rest) = .ok ((), rest) := by
  have hp : sign.toList.isPrefixOf (sign.toList ++ rest) = true :=
    List.isPrefixOf_iff_prefix.2 (List.prefix_append _ _)
  have hd : (sign.toList ++ rest).drop sign.length = rest := by
    rw [← String.length_toList, List.drop_left]
  show ((if sign.toList.isPrefixOf (sign.toList ++ rest) then
    set ((sign.toList ++ rest).drop sign.length)
    else throw ("expected " ++ sign) : Read Unit)).run _ = _
  rw [if_pos hp, hd]
  rfl

theorem run_accept (sign : Char) : (accept sign).run (sign :: rest) = .ok (true, rest) := by
  show ((if sign = sign then do
    set rest
    return true
    else return false : Read Bool)).run _ = _
  rw [if_pos rfl]
  rfl

theorem run_accept_of_ne (h : text.head? ≠ some sign) :
    (accept sign).run text = .ok (false, text) := by
  cases text with
  | nil => rfl
  | cons c rest =>
    have hne : ¬ c = sign := fun he => h (congrArg some he)
    show ((if c = sign then do
      set rest
      return true
      else return false : Read Bool)).run _ = _
    rw [if_neg hne]
    rfl

/-! ### Strings -/

/-- The codes of a character, put in front of those of a text. -/
def withCode (c : Char) (read : Except String (List Nat × List Char)) :
    Except String (List Nat × List Char) := do
  let (codes, rest) ← read
  return (c.toNat :: codes, rest)

theorem stringCodes_escaped {letter : Char} (hu : letter ≠ 'u')
    (h : escapeLetter? letter = some c) :
    stringCodes ('\\' :: letter :: rest) = withCode c (stringCodes rest) := by
  rw [stringCodes, h]
  · rfl
  · intro a b c' d rest' hletter
    exact absurd hletter hu

/-- A control character is told by its code. -/
theorem stringCodes_code (hc : c.toNat < 0x20) :
    stringCodes ((codeEscape c).toList ++ rest) = withCode c (stringCodes rest) := by
  have hcodes : ∀ n < 0x20,
      codeUnit? '0' '0' (Nat.digitChar (n / 16)) (Nat.digitChar (n % 16)) = some n ∧
        (codeEscape (Char.ofNat n)).toList =
          ['\\', 'u', '0', '0', Nat.digitChar (n / 16), Nat.digitChar (n % 16)] := by
    decide
  obtain ⟨hunit, hescape⟩ := hcodes _ hc
  rw [Char.ofNat_toNat] at hescape
  rw [hescape]
  show stringCodes ('\\' :: 'u' :: '0' :: '0' :: _ :: _ :: rest) = _
  rw [stringCodes, hunit]
  rfl

theorem stringCodes_plain (hq : c ≠ '"') (hb : c ≠ '\\') (hc : ¬ c.toNat < 0x20) :
    stringCodes (c :: rest) = withCode c (stringCodes rest) := by
  rw [stringCodes, if_neg hc]
  · rfl
  · exact hq
  · intro a b c' d rest' h
    exact absurd h hb
  · intro letter rest' h
    exact absurd h hb

theorem stringCodes_escape (c : Char) (rest : List Char) :
    stringCodes ((escape c).toList ++ rest) = withCode c (stringCodes rest) := by
  unfold escape
  split
  · exact stringCodes_escaped (by decide) rfl
  · exact stringCodes_escaped (by decide) rfl
  · exact stringCodes_escaped (by decide) rfl
  · exact stringCodes_escaped (by decide) rfl
  · exact stringCodes_escaped (by decide) rfl
  · exact stringCodes_escaped (by decide) rfl
  · exact stringCodes_escaped (by decide) rfl
  · next hq hb _ _ _ _ _ =>
    split
    · next hc => exact stringCodes_code hc
    · next hc =>
      rw [Char.toString, String.toList_singleton]
      exact stringCodes_plain hq hb hc

theorem stringCodes_text (text : List Char) (rest : List Char) :
    stringCodes (text.flatMap (fun c => (escape c).toList) ++ '"' :: rest) =
      .ok (text.map Char.toNat, rest) := by
  induction text with
  | nil => rfl
  | cons c text ih =>
    rw [List.flatMap_cons, List.append_assoc, stringCodes_escape, ih]
    rfl

/-- A character is no half of a surrogate pair. -/
theorem not_surrogate (c : Char) : ¬ (0xD800 ≤ c.toNat ∧ c.toNat < 0xE000) := by
  rcases c.valid with h | ⟨h, -⟩
  · have : c.toNat < 0xD800 := h
    omega
  · have : 0xDFFF < c.toNat := h
    omega

theorem ofCodes?_cons (c : Char) (codes : List Nat) :
    ofCodes? (c.toNat :: codes) = (ofCodes? codes).map (c :: ·) := by
  have hc := not_surrogate c
  cases codes with
  | nil =>
    show (if 0xD800 ≤ c.toNat && c.toNat < 0xE000 then none else some [Char.ofNat c.toNat]) =
      some [c]
    rw [if_neg (by simpa using hc), Char.ofNat_toNat]
  | cons low codes =>
    rw [ofCodes?, if_neg (by simp; omega), if_neg (by simp; omega), Char.ofNat_toNat]

theorem ofCodes?_toNat (text : List Char) : ofCodes? (text.map Char.toNat) = some text := by
  induction text with
  | nil => rfl
  | cons c text ih =>
    rw [List.map_cons, ofCodes?_cons, ih]
    rfl

/-- **A quoted string is read as it was.** -/
theorem run_string? (text : String) (rest : List Char) :
    string?.run ((quote text).toList ++ rest) = .ok (some text, rest) := by
  have hquote : (quote text).toList ++ rest = "\"".toList ++
      (text.toList.flatMap (fun c => (escape c).toList) ++ '"' :: rest) := by
    rw [quote, String.toList_append, String.toList_append, String.toList_join, List.flatMap_map,
      List.append_assoc, List.append_assoc]
    rfl
  rw [hquote, string?, run_bind_of_ok (run_expect "\"")]
  show (do
    let (codes, rest) ← liftM
      (stringCodes (text.toList.flatMap (fun c => (escape c).toList) ++ '"' :: rest))
    set rest
    return (ofCodes? codes).map String.ofList : Read (Option String)).run _ = _
  rw [stringCodes_text]
  show Except.ok ((ofCodes? (text.toList.map Char.toNat)).map String.ofList, rest) = _
  rw [ofCodes?_toNat, Option.map_some, String.ofList_toList]

/-! ### Numbers -/

/-- A text that does not go on with a number. -/
def Stops (rest : List Char) : Prop :=
  ∀ c, rest.head? = some c → c.isDigit = false ∧ c ≠ '.' ∧ c ≠ 'e' ∧ c ≠ 'E'

theorem Stops.head_ne (h : Stops rest) (hs : sign = '.' ∨ sign = 'e' ∨ sign = 'E') :
    rest.head? ≠ some sign := by
  intro hr
  obtain ⟨-, hpoint, he, hE⟩ := h sign hr
  rcases hs with rfl | rfl | rfl
  · exact hpoint rfl
  · exact he rfl
  · exact hE rfl

theorem run_someDigits (hd : ∀ c ∈ text, c.isDigit = true) (hne : text ≠ []) (hs : Stops rest) :
    someDigits.run (text ++ rest) = .ok (text, rest) := by
  obtain ⟨htake, hdrop⟩ := Text.span_append hd fun c hc => (hs c hc).1
  have hdigits : digits.run (text ++ rest) = .ok (text, rest) := by
    show Except.ok ((text ++ rest).takeWhile Char.isDigit,
      (text ++ rest).dropWhile Char.isDigit) = _
    rw [htake, hdrop]
  rw [someDigits, run_bind_of_ok hdigits, if_neg (by simpa using hne)]
  rfl

theorem decimal_toDigits (n : Nat) : decimal (Nat.toDigits 10 n) = n := by
  have hstep : (fun m (c : Char) => m * 10 + (c.toNat - 48)) =
      fun m c => 10 * m + (c.toNat - '0'.toNat) := by
    funext m c
    rw [Nat.mul_comm]
    rfl
  rw [decimal, hstep, ← Nat.ofDigitChars_eq_foldl, Nat.ofDigitChars_ten_toDigits]

/-- A number of several digits does not start with a zero. -/
theorem head?_toDigits_ne {n : Nat} (h : 0 < n) : (Nat.toDigits 10 n).head? ≠ some '0' := by
  induction n using Nat.strongRecOn with
  | _ n ih =>
    rw [Nat.toDigits_eq_if (by decide)]
    split
    · next hn =>
      have hdigit : ∀ m < 10, 0 < m → Nat.digitChar m ≠ '0' := by decide
      exact fun he => hdigit n hn h (Option.some.inj he)
    · next hn =>
      rw [List.head?_append_of_ne_nil _ Nat.toDigits_ne_nil]
      exact ih (n / 10) (by omega) (by omega)

theorem toDigits_not_padded (n : Nat) :
    ¬ ((Nat.toDigits 10 n).head? = some '0' ∧ 1 < (Nat.toDigits 10 n).length) := by
  rintro ⟨hzero, hlength⟩
  rcases Nat.eq_zero_or_pos n with rfl | hn
  · exact absurd hlength (by decide)
  · exact head?_toDigits_ne hn hzero

/-- What is made of digits with a sign or without, when nothing else of a number comes
behind them. -/
theorem run_number_digits {negative : Bool} {whole : List Char}
    (hnegative : (accept '-').run text = .ok (negative, whole ++ rest))
    (hd : ∀ c ∈ whole, c.isDigit = true) (hne : whole ≠ [])
    (hpad : ¬ (whole.head? = some '0' ∧ 1 < whole.length)) (hs : Stops rest) :
    number.run text =
      (if negative then
        if 0 < decimal whole && 2 * decimal whole ≤ Count.bound then
          return .integer (-decimal whole)
        else return ofDigits negative whole [] 0
      else if decimal whole < Count.bound then return .integer (decimal whole)
      else return ofDigits negative whole [] 0 : Read Json).run rest := by
  have hsign (sign : Char) (h : sign = '.' ∨ sign = 'e' ∨ sign = 'E') :
      (accept sign).run rest = .ok (false, rest) := run_accept_of_ne (hs.head_ne h)
  rw [number, run_bind_of_ok hnegative, run_bind_of_ok (run_someDigits hd hne hs)]
  dsimp only
  rw [if_neg (by simpa using hpad), run_bind_of_ok (hsign '.' (by simp)), if_neg (by simp)]
  -- there are no digits behind a point
  rw [pure_bind, run_bind_of_ok (hsign 'e' (by simp)), if_neg (by simp),
    run_bind_of_ok (hsign 'E' (by simp)), if_neg (by simp), pure_bind]
  rfl

/-- An integer that 64 bits hold, with a sign or without. -/
def Fits (n : Int) : Prop :=
  n < Count.bound ∧ -(2 * n) ≤ Count.bound

/-- **An integer is read as it was written.** -/
theorem run_number {n : Int} (h : Fits n) (hs : Stops rest) :
    number.run ((toString n).toList ++ rest) = .ok (.integer n, rest) := by
  have hdigit (m : Nat) : ∀ c ∈ Nat.toDigits 10 m, c.isDigit = true :=
    fun c hc => Nat.isDigit_of_mem_toDigits (by decide) (by decide) hc
  obtain ⟨hbound, hlow⟩ := h
  cases n with
  | ofNat m =>
    have htext : (toString (Int.ofNat m)).toList = Nat.toDigits 10 m := String.toList_ofList
    have hnegative : (accept '-').run (Nat.toDigits 10 m ++ rest) =
        .ok (false, Nat.toDigits 10 m ++ rest) := by
      refine run_accept_of_ne ?_
      rw [List.head?_append_of_ne_nil _ Nat.toDigits_ne_nil]
      intro hhead
      exact absurd (hdigit m '-' (List.mem_of_mem_head? hhead)) (by decide)
    rw [htext, run_number_digits hnegative (hdigit m) Nat.toDigits_ne_nil
      (toDigits_not_padded m) hs,
      decimal_toDigits, if_neg (by simp), if_pos (Int.ofNat_lt.1 hbound)]
    rfl
  | negSucc m =>
    have htext : (toString (Int.negSucc m)).toList = '-' :: Nat.toDigits 10 (m + 1) := by
      show ("-" ++ Nat.repr (m + 1)).toList = _
      rw [String.toList_append, Nat.repr_eq_ofList_toDigits, String.toList_ofList,
        String.toList_ofList]
      rfl
    rw [htext, List.cons_append, run_number_digits (run_accept '-') (hdigit (m + 1))
      Nat.toDigits_ne_nil (toDigits_not_padded (m + 1)) hs, decimal_toDigits, if_pos rfl,
      if_pos (by simp; omega)]
    rfl

end StyleTokens.Json
