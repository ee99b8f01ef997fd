/-
Reading bytes as a text.

* `decodeLossy_toUTF8` — of the UTF-8 form of a text nothing is replaced;
* `decodeLossy_eq_nil_iff` — no byte is passed over without a sign of it;
* `getLast?_decodeLossy` — the text ends in a line break when the bytes do.

Design notes: the last of these rests on what a sequence that has begun can come to.  `Sane` says
that it is past the characters that take one byte, and each byte that is read keeps it so.
-/
import Mathlib.Tactic
import StyleTokens.Text.Utf8

namespace StyleTokens.Utf8

variable {p : Pending} {pending : Option Pending}

@[simp] theorem decodeFrom_none_nil : decodeFrom none [] = [] := rfl

theorem decodeFrom_cons (pending : Option Pending) (byte : UInt8) (bytes : List UInt8) :
    decodeFrom pending (byte :: bytes) =
      (step pending byte.toNat).1 ++ decodeFrom (step pending byte.toNat).2 bytes := by
  cases pending <;> rfl

/-! ### One byte -/

@[simp] theorem step_none (byte : Nat) : step none byte = begin byte := rfl

/-- A sequence that can come to no character of one byte. -/
structure Pending.Sane (p : Pending) : Prop where
  low : 0x80 ≤ p.low
  past : 0 < p.bits + (p.low - 0x80)
  last : p.missing = 1 → 0 < p.bits

/-- The three things that a byte can be to begin with. -/
theorem begin_cases (byte : Nat) :
    (byte < 0x80 ∧ begin byte = ([Char.ofNat byte], none)) ∨
    (0x80 ≤ byte ∧ begin byte = ([replacement], none)) ∨
    ∃ p : Pending, 0x80 ≤ byte ∧ p.Sane ∧ begin byte = ([], some p) := by
  unfold begin
  split
  · exact Or.inl ⟨by assumption, rfl⟩
  split
  · exact Or.inr (Or.inl ⟨by omega, rfl⟩)
  repeat' split
  all_goals first
    | exact Or.inr (Or.inl ⟨by omega, rfl⟩)
    | refine Or.inr (Or.inr ⟨_, by omega, ⟨?_, ?_, ?_⟩, rfl⟩)
  all_goals simp only
  all_goals omega

/-- A byte within the bounds, when more are missing. -/
theorem step_of_more {byte : Nat} (hlow : p.low ≤ byte) (hhigh : byte ≤ p.high)
    (hmissing : p.missing ≠ 1) : step (some p) byte =
      ([], some ⟨p.bits * 64 + (byte - 0x80), p.missing - 1, 0x80, 0xBF⟩) := by
  simp [step, hlow, hhigh, hmissing]

/-- A byte within the bounds, when it is the last one missing. -/
theorem step_of_last {byte : Nat} (hlow : p.low ≤ byte) (hhigh : byte ≤ p.high)
    (hmissing : p.missing = 1) : step (some p) byte =
      ([Char.ofNat (p.bits * 64 + (byte - 0x80))], none) := by
  simp [step, hlow, hhigh, hmissing]

/-- A byte out of the bounds ends the sequence and is taken for itself. -/
theorem step_of_out {byte : Nat} (h : ¬ (p.low ≤ byte ∧ byte ≤ p.high)) :
    step (some p) byte = (replacement :: (begin byte).1, (begin byte).2) := by
  simp [step, show ¬ ((decide (p.low ≤ byte) && decide (byte ≤ p.high)) = true) by simpa using h]

/-- The three things that a byte can be to a sequence that has begun. -/
theorem step_some_cases (p : Pending) (byte : Nat) :
    (p.low ≤ byte ∧ p.missing = 1 ∧
      step (some p) byte = ([Char.ofNat (p.bits * 64 + (byte - 0x80))], none)) ∨
    (p.low ≤ byte ∧ p.missing ≠ 1 ∧ step (some p) byte =
      ([], some ⟨p.bits * 64 + (byte - 0x80), p.missing - 1, 0x80, 0xBF⟩)) ∨
    step (some p) byte = (replacement :: (begin byte).1, (begin byte).2) := by
  by_cases hbounds : p.low ≤ byte ∧ byte ≤ p.high
  · by_cases hmissing : p.missing = 1
    · exact Or.inl ⟨hbounds.1, hmissing, step_of_last hbounds.1 hbounds.2 hmissing⟩
    · exact Or.inr (Or.inl ⟨hbounds.1, hmissing, step_of_more hbounds.1 hbounds.2 hmissing⟩)
  · exact Or.inr (Or.inr (step_of_out hbounds))

/-! ### A text in its UTF-8 form -/

/-- The first of two bytes. -/
theorem begin_two {v : Nat} (hmore : 0x7F < v) (hless : v ≤ 0x7FF) :
    begin (v / 64 + 0xC0) = ([], some ⟨v / 64, 1, 0x80, 0xBF⟩) := by
  rw [begin, if_neg (by omega), if_neg (by omega), if_pos (by omega), Nat.add_sub_cancel]

/-- The first of three bytes; the second one lies in its bounds. -/
theorem begin_three {v : Nat} (hmore : 0x7FF < v) (hless : v ≤ 0xFFFF) (hvalid : v.isValidChar) :
    ∃ low high, begin (v / 4096 + 0xE0) = ([], some ⟨v / 4096, 2, low, high⟩) ∧
      low ≤ v / 64 % 64 + 0x80 ∧ v / 64 % 64 + 0x80 ≤ high := by
  rw [begin, if_neg (by omega), if_neg (by omega), if_neg (by omega)]
  split
  · exact ⟨_, _, by rw [show v / 4096 = 0 by omega], by omega, by omega⟩
  split
  · -- the surrogates are left out
    refine ⟨_, _, by rw [show v / 4096 = 0xD by omega], by omega, ?_⟩
    rcases hvalid with h | ⟨h, -⟩ <;> omega
  · rw [if_pos (by omega), Nat.add_sub_cancel]
    exact ⟨_, _, rfl, by omega, by omega⟩

/-- The first of four bytes; the second one lies in its bounds. -/
theorem begin_four {v : Nat} (hmore : 0xFFFF < v) (hvalid : v.isValidChar) :
    ∃ low high, begin (v / 262144 + 0xF0) = ([], some ⟨v / 262144, 3, low, high⟩) ∧
      low ≤ v / 4096 % 64 + 0x80 ∧ v / 4096 % 64 + 0x80 ≤ high := by
  have hless : v < 0x110000 := by rcases hvalid with h | ⟨-, h⟩ <;> omega
  rw [begin, if_neg (by omega), if_neg (by omega), if_neg (by omega), if_neg (by omega),
    if_neg (by omega), if_neg (by omega)]
  split
  · exact ⟨_, _, by rw [show v / 262144 = 0 by omega], by omega, by omega⟩
  split
  · rw [Nat.add_sub_cancel]
    exact ⟨_, _, rfl, by omega, by omega⟩
  · rw [if_pos (by omega), show v / 262144 = 4 by omega]
    exact ⟨_, _, rfl, by omega, by omega⟩

/-- **The bytes of a character are read as that character.** -/
theorem decodeFrom_utf8EncodeChar (c : Char) (rest : List UInt8) :
    decodeFrom none (String.utf8EncodeChar c ++ rest) = c :: decodeFrom none rest := by
  have hvalid : c.toNat.isValidChar := c.valid
  have hc : Char.ofNat c.toNat = c := c.ofNat_toNat
  have hless : c.toNat < 0x110000 := by rcases hvalid with h | ⟨-, h⟩ <;> omega
  rw [String.utf8EncodeChar]
  simp only [show c.val.toNat = c.toNat from rfl]
  generalize c.toNat = v at *
  have hbyte {n : Nat} (h : n < 256) : (UInt8.ofNat n).toNat = n := UInt8.toNat_ofNat_of_lt' h
  -- each further byte puts six bits behind those that are there, and the last one completes `v`
  have hmore {bits low high k n : Nat} (hn : n < 64) (hlow : low ≤ n + 128)
      (hhigh : n + 128 ≤ high) (hk : k ≠ 1) (bytes : List UInt8) :
      decodeFrom (some ⟨bits, k, low, high⟩) (UInt8.ofNat (n + 128) :: bytes) =
        decodeFrom (some ⟨bits * 64 + n, k - 1, 0x80, 0xBF⟩) bytes := by
    rw [decodeFrom_cons, hbyte (by omega), step_of_more hlow hhigh hk, Nat.add_sub_cancel]
    rfl
  have hlast {bits low high n : Nat} (hn : n < 64) (hlow : low ≤ n + 128)
      (hhigh : n + 128 ≤ high) (hv : bits * 64 + n = v) (bytes : List UInt8) :
      decodeFrom (some ⟨bits, 1, low, high⟩) (UInt8.ofNat (n + 128) :: bytes) =
        c :: decodeFrom none bytes := by
    rw [decodeFrom_cons, hbyte (by omega), step_of_last hlow hhigh rfl, Nat.add_sub_cancel, hv, hc]
    rfl
  -- one case for each number of bytes
  split
  · rw [List.singleton_append, decodeFrom_cons, hbyte (by omega), step_none, begin,
      if_pos (by omega), hc]
    rfl
  split
  · rw [show v / 64 % 32 = v / 64 by omega, List.cons_append, decodeFrom_cons, hbyte (by omega),
      step_none, begin_two (by omega) (by omega)]
    exact hlast (by omega) (by omega) (by omega) (by omega) rest
  split
  · obtain ⟨low, high, hbegin, hlow, hhigh⟩ := begin_three (by omega) (by omega) hvalid
    rw [show v / 4096 % 16 = v / 4096 by omega, List.cons_append, decodeFrom_cons,
      hbyte (by omega), step_none, hbegin, List.nil_append, List.cons_append,
      hmore (by omega) hlow hhigh (by decide)]
    exact hlast (by omega) (by omega) (by omega) (by omega) rest
  · obtain ⟨low, high, hbegin, hlow, hhigh⟩ := begin_four (by omega) hvalid
    rw [show v / 262144 % 8 = v / 262144 by omega, List.cons_append, decodeFrom_cons,
      hbyte (by omega), step_none, hbegin, List.nil_append, List.cons_append,
      hmore (by omega) hlow hhigh (by decide), List.cons_append,
      hmore (by omega) (by omega) (by omega) (by decide)]
    exact hlast (by omega) (by omega) (by omega) (by omega) rest

/-- **Of the UTF-8 form of a text nothing is replaced.** -/
theorem decodeLossy_toUTF8 (text : String) : decodeLossy text.toUTF8 = text.toList := by
  have hchars (chars : List Char) :
      decodeFrom none (chars.flatMap String.utf8EncodeChar) = chars := by
    induction chars with
    | nil => rfl
    | cons c chars ih => rw [List.flatMap_cons, decodeFrom_utf8EncodeChar, ih]
  have hbytes : text.toUTF8 = text.toList.utf8Encode := by
    rw [← String.toByteArray_ofList, String.ofList_toList]
    rfl
  rw [decodeLossy, hbytes, List.utf8Encode, List.toList_data_toByteArray, hchars]

/-! ### Any bytes -/

theorem begin_ne (byte : Nat) : (begin byte).1 = [] → (begin byte).2 ≠ none := by
  rcases begin_cases byte with ⟨-, h⟩ | ⟨-, h⟩ | ⟨p, -, -, h⟩ <;> simp [h]

/-- Each byte gives a character or leaves a sequence. -/
theorem step_ne (pending : Option Pending) (byte : Nat) :
    (step pending byte).1 = [] → (step pending byte).2 ≠ none := by
  cases pending with
  | none => exact begin_ne byte
  | some p =>
    rcases step_some_cases p byte with ⟨-, -, h⟩ | ⟨-, -, h⟩ | h <;> simp [h]

/-- What is read is empty only if nothing was left to read. -/
theorem decodeFrom_eq_nil_iff (pending : Option Pending) (bytes : List UInt8) :
    decodeFrom pending bytes = [] ↔ pending = none ∧ bytes = [] := by
  induction bytes generalizing pending with
  | nil => cases pending <;> simp [decodeFrom]
  | cons byte bytes ih =>
    have hstep := step_ne pending byte.toNat
    rw [decodeFrom_cons, List.append_eq_nil_iff, ih]
    simp only [List.cons_ne_nil, and_false, iff_false]
    exact fun h => hstep h.1 h.2.1

/-- **No byte is passed over without a sign of it.** -/
theorem decodeLossy_eq_nil_iff (bytes : ByteArray) : decodeLossy bytes = [] ↔ bytes.size = 0 := by
  rw [decodeLossy, decodeFrom_eq_nil_iff, and_iff_right rfl, ← List.length_eq_zero_iff,
    Array.length_toList]
  rfl

/-! ### The last byte -/

/-- A byte that begins a sequence begins a sane one. -/
theorem begin_sane {byte : Nat} (h : (begin byte).2 = some p) : p.Sane := by
  rcases begin_cases byte with ⟨-, hbegin⟩ | ⟨-, hbegin⟩ | ⟨q, -, hq, hbegin⟩
  · simp [hbegin] at h
  · simp [hbegin] at h
  · rw [hbegin] at h
    exact Option.some.inj h ▸ hq

/-- And every further byte leaves a sane one. -/
theorem step_sane {byte : Nat} (h : ∀ p ∈ pending, p.Sane) :
    ∀ p ∈ (step pending byte).2, p.Sane := by
  rintro q hq
  cases pending with
  | none => exact begin_sane hq
  | some p =>
    obtain ⟨hlow, hpast, -⟩ := h p rfl
    rcases step_some_cases p byte with ⟨-, -, hstep⟩ | ⟨hbyte, -, hstep⟩ | hstep
    · rw [hstep] at hq
      cases hq
    · rw [hstep] at hq
      obtain rfl := Option.some.inj hq
      have hbits : 0 < p.bits * 64 + (byte - 0x80) := by omega
      exact ⟨Nat.le_refl _, Nat.add_pos_left hbits _, fun _ => hbits⟩
    · rw [hstep] at hq
      exact begin_sane hq

theorem ofNat_eq_newline_iff (n : Nat) : Char.ofNat n = '\n' ↔ n = 10 := by
  constructor
  · intro h
    by_cases hvalid : n.isValidChar
    · rw [Char.ofNat, dif_pos hvalid] at h
      exact congrArg Char.toNat h
    · rw [Char.ofNat, dif_neg hvalid] at h
      exact absurd h (by decide)
  · rintro rfl
    rfl

theorem replacement_ne_newline : replacement ≠ '\n' := by decide

/-- What a single byte that begins a sequence comes to. -/
theorem getLast?_begin (byte : Nat) :
    ((begin byte).1 ++ decodeFrom (begin byte).2 []).getLast? = some '\n' ↔ byte = 10 := by
  rcases begin_cases byte with ⟨-, h⟩ | ⟨hbyte, h⟩ | ⟨p, hbyte, -, h⟩
  · simp only [h, decodeFrom, List.append_nil, List.getLast?_singleton, Option.some.injEq,
      ofNat_eq_newline_iff]
  · simp only [h, decodeFrom, List.append_nil, List.getLast?_singleton, Option.some.injEq,
      replacement_ne_newline, false_iff]
    omega
  · simp only [h, decodeFrom, List.nil_append, List.getLast?_singleton, Option.some.injEq,
      replacement_ne_newline, false_iff]
    omega

/-- A last byte that is a line break ends whatever sequence has begun, and no other one is read as
a line break. -/
theorem getLast?_step {byte : Nat} (h : ∀ p ∈ pending, p.Sane) :
    ((step pending byte).1 ++ decodeFrom (step pending byte).2 []).getLast? = some '\n' ↔
      byte = 10 := by
  cases pending with
  | none => exact getLast?_begin byte
  | some p =>
    obtain ⟨hlow, hpast, hlast⟩ := h p rfl
    rcases step_some_cases p byte with ⟨hbyte, hmissing, hstep⟩ | ⟨hbyte, -, hstep⟩ | hstep
    · -- the bits that are there make the character greater than a line break
      have := hlast hmissing
      rw [hstep, decodeFrom_none_nil, List.append_nil, List.getLast?_singleton,
        Option.some.injEq, ofNat_eq_newline_iff]
      omega
    · simp only [hstep, decodeFrom, List.nil_append, List.getLast?_singleton, Option.some.injEq,
        replacement_ne_newline, false_iff]
      omega
    · -- only what the byte is by itself can stand at the end
      have hne : (begin byte).1 ++ decodeFrom (begin byte).2 [] ≠ [] := by
        rw [Ne, List.append_eq_nil_iff, decodeFrom_eq_nil_iff]
        exact fun h => begin_ne byte h.1 h.2.1
      rw [hstep, List.cons_append, List.getLast?_cons_of_ne_nil hne, getLast?_begin]

/-- The invariant carried over all bytes: the line break at the end comes from the last byte. -/
theorem getLast?_decodeFrom {bytes : List UInt8} (hne : bytes ≠ []) (h : ∀ p ∈ pending, p.Sane) :
    (decodeFrom pending bytes).getLast? = some '\n' ↔ bytes.getLast? = some 10 := by
  induction bytes generalizing pending with
  | nil => exact absurd rfl hne
  | cons byte bytes ih =>
    rw [decodeFrom_cons]
    cases bytes with
    | nil =>
      rw [getLast?_step h, List.getLast?_singleton, Option.some.injEq, ← UInt8.toNat_inj]
      rfl
    | cons next bytes =>
      have hrest : decodeFrom (step pending byte.toNat).2 (next :: bytes) ≠ [] := by
        simp [decodeFrom_eq_nil_iff]
      rw [List.getLast?_append_of_ne_nil _ hrest, ih (by simp) (step_sane h),
        List.getLast?_cons_cons]

/-- **The text ends in a line break when the bytes do.** -/
theorem getLast?_decodeLossy (bytes : ByteArray) :
    (decodeLossy bytes).getLast? = some '\n' ↔ bytes.data.toList.getLast? = some 10 := by
  rcases eq_or_ne bytes.data.toList [] with h | h
  · simp [decodeLossy, h]
  · exact getLast?_decodeFrom h (by simp)

end StyleTokens.Utf8
