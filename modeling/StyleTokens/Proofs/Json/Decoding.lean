/-
Documents that are read as they were written, and decoders of what was encoded.

* `Json.Exact` — a document of which all numbers are integers that 64 bits hold;
* `spells_prettyAt`, `spells_compact` — both ways of writing spell the document;
* `read_pretty`, `read_compact` — so an exact document is read as it was written;
* `read_pretty_line` — also with the end of a line behind it;
* `Record.named`, `asRecord_object` — an object with all fields of a record, each of them once;
* `required_named`, `nullable_named`, `withDefault_named` — the fields are found by their names;
* `asList_map`, `asMap_map` — a list or map is decoded when its values are;
* `asOption_nullable`, `asName_label`, `asNat_ofNat` — values that may be missing, names and
  counts;
* `exactItems_map`, `exactMembers_map` — such documents can be told from their texts.
-/
import Mathlib.Data.List.Sort
import Mathlib.Data.String.Basic
import StyleTokens.Json.Decode
import StyleTokens.Proofs.Json.Spelling

namespace StyleTokens.Json

mutual

/-- A document that can be told from its text: its numbers are integers that 64 bits
hold. -/
def Exact : Json → Prop
  | integer n => Fits n
  | real _ _ _ => False
  | unreadable => False
  | array items => ExactItems items
  | object members => ExactMembers members
  | _ => True

/-- `Exact` for the items of an array. -/
def ExactItems : List Json → Prop
  | [] => True
  | item :: items => item.Exact ∧ ExactItems items

/-- `Exact` for the members of an object. -/
def ExactMembers : List (String × Json) → Prop
  | [] => True
  | (_, value) :: members => value.Exact ∧ ExactMembers members

end

/-! ### Over several lines -/

/-- The end of a line and the blanks in front of the next one. -/
def margin (depth : Nat) : List Char :=
  '\n' :: List.replicate (2 * depth) ' '

theorem blank_margin (depth : Nat) : Blank (margin depth) := by
  intro c hc
  rcases List.mem_cons.1 hc with rfl | hc
  · rfl
  · rw [List.eq_of_mem_replicate hc]
    rfl

theorem blank_gap : Blank [' '] :=
  List.forall_mem_singleton.2 rfl

theorem blank_line : Blank ['\n'] :=
  List.forall_mem_singleton.2 rfl

/-- Lines, each with a comma before it but the first one, and the closing sign on a line
of its own. -/
def lined (depth : Nat) (closing : Char) : List String → List Char
  | [] => [closing]
  | [line] => margin (depth + 1) ++ (line.toList ++ (margin depth ++ [closing]))
  | line :: lines => margin (depth + 1) ++ (line.toList ++ ',' :: lined depth closing lines)

theorem lined_cons_cons (depth : Nat) (closing : Char) (line next : String)
    (lines : List String) : lined depth closing (line :: next :: lines) =
      margin (depth + 1) ++ (line.toList ++ ',' :: lined depth closing (next :: lines)) := rfl

theorem intercalate_lined (depth : Nat) (closing : Char) (line : String) (lines : List String) :
    '\n' :: ((",\n".toList).intercalate ((line :: lines).map fun line =>
      List.replicate (2 * (depth + 1)) ' ' ++ line.toList) ++ (margin depth ++ [closing])) =
      lined depth closing (line :: lines) := by
  induction lines generalizing line with
  | nil => simp [lined, margin, List.intercalate]
  | cons next lines ih =>
    have hnext := ih next
    rw [List.map_cons] at hnext
    rw [List.map_cons, List.map_cons, List.intercalate_cons_cons, lined_cons_cons, ← hnext]
    simp [margin]

theorem toList_block {opening closing : String} (first last : Char)
    (hopening : opening.toList = [first]) (hclosing : closing.toList = [last]) (depth : Nat)
    (lines : List String) :
    (block opening closing depth lines).toList = first :: lined depth last lines := by
  cases lines with
  | nil =>
    have hblock : block opening closing depth [] = opening ++ closing := rfl
    rw [hblock, String.toList_append, hopening, hclosing]
    rfl
  | cons line lines =>
    have hlines : ((line :: lines).map
        (String.ofList (List.replicate (2 * (depth + 1)) ' ') ++ ·)).map String.toList =
        (line :: lines).map fun line => List.replicate (2 * (depth + 1)) ' ' ++ line.toList := by
      rw [List.map_map]
      refine List.map_congr_left fun line _ => ?_
      rw [Function.comp_apply, String.toList_append, String.toList_ofList]
    rw [block, if_neg (by simp), ← intercalate_lined]
    dsimp only
    rw [String.toList_append, String.toList_append, String.toList_append, String.toList_append,
      String.toList_append, String.toList_intercalate, hlines, String.toList_ofList, hopening,
      hclosing]
    simp [margin]

mutual

/-- A document over several lines is spelled. -/
theorem spells_prettyAt : ∀ (document : Json) (depth : Nat), document.Exact →
    Spells document (document.prettyAt depth).toList
  | .null, _, _ => .null
  | .bool flag, _, _ => .bool flag
  | .integer _, _, h => .integer h
  | .string value, _, _ => .string value
  | .array [], depth, _ => by
    rw [prettyAt, toList_block '[' ']' rfl rfl]
    exact .noItems
  | .array (item :: items), depth, h => by
    rw [prettyAt, toList_block '[' ']' rfl rfl]
    exact .array (spells_prettyItems (item :: items) depth h (List.cons_ne_nil _ _))
  | .object [], depth, _ => by
    rw [prettyAt, toList_block '\x7b' '\x7d' rfl rfl]
    exact .noMembers
  | .object (member :: members), depth, h => by
    rw [prettyAt, toList_block '\x7b' '\x7d' rfl rfl]
    exact .object (spells_prettyMembers (member :: members) depth h (List.cons_ne_nil _ _))

theorem spells_prettyItems : ∀ (all : List Json) (depth : Nat), ExactItems all → all ≠ [] →
    SpellsItems all (lined depth ']' (prettyItems (depth + 1) all))
  | [], _, _, hne => absurd rfl hne
  | [item], depth, h, _ =>
    .last (blank_margin _) (spells_prettyAt item (depth + 1) h.1) (blank_margin depth)
  | item :: next :: items, depth, h, _ =>
    .more (blank_margin _) (spells_prettyAt item (depth + 1) h.1) blank_nil
      (spells_prettyItems (next :: items) depth h.2 (List.cons_ne_nil _ _))

theorem spells_prettyMembers : ∀ (all : List (String × Json)) (depth : Nat), ExactMembers all →
    all ≠ [] → SpellsMembers all (lined depth '\x7d' (prettyMembers (depth + 1) all))
  | [], _, _, hne => absurd rfl hne
  | [(name, value)], depth, h, _ => by
    have := SpellsMembers.last name (blank_margin (depth + 1)) blank_gap
      (spells_prettyAt value (depth + 1) h.1) (blank_margin depth)
    simpa [lined, prettyMembers] using this
  | (name, value) :: next :: members, depth, h, _ => by
    have := SpellsMembers.more name (blank_margin (depth + 1)) blank_gap
      (spells_prettyAt value (depth + 1) h.1) blank_nil
      (spells_prettyMembers (next :: members) depth h.2 (List.cons_ne_nil _ _))
    rw [prettyMembers, prettyMembers, lined_cons_cons]
    simpa [prettyMembers] using this

end

/-! ### On one line -/

/-- Parts with commas between them, and the closing sign. -/
def joined (closing : Char) : List String → List Char
  | [] => [closing]
  | [part] => part.toList ++ [closing]
  | part :: parts => part.toList ++ ',' :: joined closing parts

theorem joined_cons_cons (closing : Char) (part next : String) (parts : List String) :
    joined closing (part :: next :: parts) =
      part.toList ++ ',' :: joined closing (next :: parts) := rfl

theorem intercalate_joined (closing : Char) (parts : List String) :
    (",".intercalate parts).toList ++ [closing] = joined closing parts := by
  rw [String.toList_intercalate]
  induction parts with
  | nil => rfl
  | cons part parts ih =>
    cases parts with
    | nil => simp [joined, List.intercalate]
    | cons next parts =>
      rw [List.map_cons, List.map_cons, List.intercalate_cons_cons, joined_cons_cons, ← ih,
        List.map_cons]
      simp

mutual

/-- A document on one line is spelled. -/
theorem spells_compact : ∀ document : Json, document.Exact →
    Spells document document.compact.toList
  | .null, _ => .null
  | .bool flag, _ => .bool flag
  | .integer _, h => .integer h
  | .string value, _ => .string value
  | .array [], _ => .noItems
  | .array (item :: items), h => by
    have := spells_compactItems (item :: items) h (List.cons_ne_nil _ _)
    rw [compact, String.toList_append, String.toList_append, List.append_assoc,
      show "]".toList = [']'] from rfl, intercalate_joined]
    exact .array this
  | .object [], _ => .noMembers
  | .object (member :: members), h => by
    have := spells_compactMembers (member :: members) h (List.cons_ne_nil _ _)
    rw [compact, String.toList_append, String.toList_append, List.append_assoc,
      show "\x7d".toList = ['\x7d'] from rfl, intercalate_joined]
    exact .object this

theorem spells_compactItems : ∀ all : List Json, ExactItems all → all ≠ [] →
    SpellsItems all (joined ']' (compactItems all))
  | [], _, hne => absurd rfl hne
  | [item], h, _ =>
    .last blank_nil (spells_compact item h.1) blank_nil
  | item :: next :: items, h, _ =>
    .more blank_nil (spells_compact item h.1) blank_nil
      (spells_compactItems (next :: items) h.2 (List.cons_ne_nil _ _))

theorem spells_compactMembers : ∀ all : List (String × Json), ExactMembers all → all ≠ [] →
    SpellsMembers all (joined '\x7d' (compactMembers all))
  | [], _, hne => absurd rfl hne
  | [(name, value)], h, _ => by
    have := SpellsMembers.last name blank_nil blank_nil (spells_compact value h.1)
      blank_nil
    simpa [joined, compactMembers] using this
  | (name, value) :: next :: members, h, _ => by
    have := SpellsMembers.more name blank_nil blank_nil (spells_compact value h.1)
      blank_nil (spells_compactMembers (next :: members) h.2 (List.cons_ne_nil _ _))
    rw [compactMembers, compactMembers, joined_cons_cons]
    simpa [compactMembers] using this

end

/-! ### Reading -/

variable {document : Json}

/-- The text of an exact document is read as that document. -/
theorem read_pretty (h : document.Exact) : read document.pretty = .ok document :=
  read_of_spells (spells_prettyAt document 0 h) blank_nil blank_nil
    (by simp [pretty])

/-- So is the text with the end of a line behind it. -/
theorem read_pretty_line (h : document.Exact) :
    read (document.pretty ++ "\n") = .ok document :=
  read_of_spells (spells_prettyAt document 0 h) blank_nil
    blank_line (by simp [pretty])

/-- So is the text on one line. -/
theorem read_compact (h : document.Exact) : read document.compact = .ok document :=
  read_of_spells (spells_compact document h) blank_nil blank_nil
    (by simp)

/-! ### Decoders -/

variable {α : Type}

/-- Not by definition for `simp`, lest a decoder be evaluated instead. -/
@[simp]
theorem ok_bind {ε β : Type} (value : α) (rest : α → Except ε β) :
    (Except.ok value >>= rest) = rest value := by rfl

/-! ### Fields -/

/-- The record of these fields, all of them given. -/
def Record.named (members : List (String × Json)) : Record :=
  ⟨members.map fun (name, value) => (name, some value), false⟩

namespace Record

variable (name other : String) (value : Json) (rest : List (String × Json)) (decode : Decoder α)

theorem given?_named :
    (named ((other, value) :: rest)).given? name =
      if name = other then some value else (named rest).given? name := by
  rw [given?, named, List.map_cons, List.lookup_cons]
  by_cases h : name = other
  · rw [if_pos h, beq_iff_eq.2 h]
    rfl
  · rw [if_neg h, beq_eq_false_iff_ne.2 h]
    rfl

@[simp]
theorem required_named :
    (named ((other, value) :: rest)).required name decode =
      if name = other then decode value else (named rest).required name decode := by
  by_cases h : name = other
  · rw [required, given?_named, if_pos h, if_pos h]
  · rw [required, given?_named, if_neg h, if_neg h]
    rfl

@[simp]
theorem nullable_named :
    (named ((other, value) :: rest)).nullable name decode =
      if name = other then asOption decode value else (named rest).nullable name decode := by
  by_cases h : name = other
  · rw [nullable, given?_named, if_pos h, if_pos h]
  · rw [nullable, given?_named, if_neg h, if_neg h]
    rfl

@[simp]
theorem withDefault_named (default : α) :
    (named ((other, value) :: rest)).withDefault name default decode =
      if name = other then decode value else (named rest).withDefault name default decode := by
  by_cases h : name = other
  · rw [withDefault, given?_named, if_pos h, if_pos h]
  · rw [withDefault, given?_named, if_neg h, if_neg h]
    rfl

end Record

/-- A name that is there once has one value. -/
theorem single?_of_mem {members : List (String × Json)} (h : (members.map Prod.fst).Nodup)
    {name : String} {value : Json} (hm : (name, value) ∈ members) :
    single? name members = .ok (some value) := by
  have hfilter : members.filter (·.1 == name) = [(name, value)] := by
    induction members with
    | nil => simp at hm
    | cons member members ih =>
      rw [List.map_cons, List.nodup_cons] at h
      rcases List.mem_cons.1 hm with rfl | hm
      · rw [List.filter_cons_of_pos (by simp), List.filter_eq_nil_iff.2]
        rintro other ho heq
        exact h.1 (List.mem_map.2 ⟨other, ho, by simpa using heq⟩)
      · rw [List.filter_cons_of_neg, ih h.2 hm]
        rintro heq
        exact h.1 (List.mem_map.2 ⟨_, hm, (by simpa using heq : member.1 = name).symm⟩)
  rw [single?, hfilter]
  rfl

/-- An object with all fields of a record, each of them once. -/
theorem asRecord_object {names : List String} {members : List (String × Json)}
    (hnames : names = members.map Prod.fst) (h : names.Nodup) :
    asRecord names (.object members) = .ok (.named members) := by
  subst hnames
  have hpart : ∀ part : List (String × Json), (∀ member ∈ part, member ∈ members) →
      (part.map Prod.fst).mapM (fun name => do
        return (name, ← single? name members) : String → Except String (String × Option Json)) =
        .ok (part.map fun (name, value) => (name, some value)) := by
    intro part
    induction part with
    | nil => exact fun _ => rfl
    | cons member part ih =>
      intro hm
      rw [List.map_cons, List.mapM_cons, single?_of_mem h (hm member List.mem_cons_self),
        ih fun other ho => hm other (List.mem_cons_of_mem _ ho)]
      rfl
  show (do
    let fields ← (members.map Prod.fst).mapM _
    return (⟨fields, false⟩ : Record)) = _
  rw [hpart members fun _ hm => hm]
  rfl

/-! ### Values -/

@[simp]
theorem asString_string (value : String) : asString (.string value) = .ok value := by rfl

@[simp]
theorem asBool_bool (value : Bool) : asBool (.bool value) = .ok value := by rfl

/-- A list is decoded when its items are. -/
theorem asList_map {encode : α → Json} {decode : Decoder α} {values : List α}
    (h : ∀ value ∈ values, decode (encode value) = .ok value) :
    asList decode (.array (values.map encode)) = .ok values := by
  show (values.map encode).mapM decode = _
  induction values with
  | nil => rfl
  | cons value values ih =>
    rw [List.map_cons, List.mapM_cons, h value List.mem_cons_self,
      ih fun other ho => h other (List.mem_cons_of_mem _ ho)]
    rfl

@[simp]
theorem asList_strings (values : List String) : asList asString (.strings values) = .ok values :=
  asList_map fun _ _ => rfl

/-- A name behind all others is put behind them. -/
theorem insert_of_forall_lt {name : String} {value : α} {done : List (String × α)}
    (h : ∀ entry ∈ done, entry.1 < name) :
    asMap.insert name value done = done ++ [(name, value)] := by
  induction done with
  | nil => rfl
  | cons entry done ih =>
    obtain ⟨hfirst, hrest⟩ := List.forall_mem_cons.1 h
    rw [asMap.insert, if_neg hfirst.ne', if_neg (lt_asymm hfirst), ih hrest, List.cons_append]

/-- Entries in order are put one behind the other. -/
theorem foldl_insert {entries : List (String × α)} (h : entries.Pairwise fun a b => a.1 < b.1) :
    ∀ done : List (String × α), (∀ entry ∈ done, ∀ other ∈ entries, entry.1 < other.1) →
      entries.foldl (fun done (name, value) => asMap.insert name value done) done =
        done ++ entries := by
  induction entries with
  | nil => simp
  | cons entry entries ih =>
    obtain ⟨name, value⟩ := entry
    intro done hdone
    obtain ⟨hfirst, hrest⟩ := List.pairwise_cons.1 h
    have hlast : asMap.insert name value done = done ++ [(name, value)] :=
      insert_of_forall_lt fun other ho => hdone other ho _ List.mem_cons_self
    rw [List.foldl_cons]
    dsimp only
    rw [hlast, ih hrest, List.append_assoc, List.singleton_append]
    intro other ho next hn
    rcases List.mem_append.1 ho with ho | ho
    · exact hdone other ho next (List.mem_cons_of_mem _ hn)
    · rw [List.mem_singleton.1 ho]
      exact hfirst next hn

/-- Members are decoded when their values are. -/
theorem mapM_members {encode : α → Json} {decode : Decoder α} {entries : List (String × α)}
    (h : ∀ entry ∈ entries, decode (encode entry.2) = .ok entry.2) :
    (entries.map fun (name, value) => (name, encode value)).mapM
      (fun (name, value) => do return (name, ← decode value) :
        String × Json → Except String (String × α)) = .ok entries := by
  induction entries with
  | nil => rfl
  | cons entry entries ih =>
    obtain ⟨name, value⟩ := entry
    obtain ⟨hfirst, hrest⟩ := List.forall_mem_cons.1 h
    dsimp only at hfirst
    rw [List.map_cons, List.mapM_cons, ih hrest]
    dsimp only
    rw [hfirst]
    rfl

/-- A map is decoded when its values are and its names are in order. -/
theorem asMap_map (encode : α → Json) {decode : Decoder α} {entries : List (String × α)}
    (hsorted : entries.Pairwise fun a b => a.1 < b.1)
    (h : ∀ entry ∈ entries, decode (encode entry.2) = .ok entry.2) :
    asMap decode (.object (entries.map fun (name, value) => (name, encode value))) =
      .ok entries := by
  refine (congrArg (· >>= _) (mapM_members h)).trans ?_
  exact congrArg Except.ok (foldl_insert hsorted [] (by simp))

/-- A value that may be missing is decoded, if it is not written like a missing one. -/
theorem asOption_nullable {encode : α → Json} {decode : Decoder α} {value? : Option α}
    (hnull : ∀ value, encode value ≠ .null)
    (h : ∀ value ∈ value?, decode (encode value) = .ok value) :
    asOption decode (.nullable encode value?) = .ok value? := by
  cases value? with
  | none => rfl
  | some value =>
    rw [nullable, asOption]
    · rw [h value rfl]
      rfl
    · exact hnull value

/-- A name is decoded as the value that it labels. -/
theorem asName_label {label : α → String} {ofLabel? : String → Option α} {value : α}
    (h : ofLabel? (label value) = some value) :
    asName ofLabel? (.string (label value)) = .ok value := by
  unfold asName
  dsimp only
  rw [Option.bind_some, h]
  rfl

theorem asInteger_integer {low high n : Int} (h : low ≤ n ∧ n < high) :
    asInteger low high (.integer n) = .ok n := by
  rw [asInteger, if_pos (by simpa using h)]
  rfl

theorem asNat_ofNat {n : Nat} (h : n < Count.bound) : asNat (.ofNat n) = .ok n := by
  have hinteger : asInteger 0 Count.bound (.ofNat n) = .ok (n : Int) :=
    asInteger_integer ⟨by omega, Int.ofNat_lt.2 h⟩
  rw [asNat, hinteger]
  rfl

/-! ### Texts -/

theorem fits_ofNat {n : Nat} (h : n < Count.bound) : Fits n := by
  refine ⟨Int.ofNat_lt.2 h, ?_⟩
  omega

theorem exactItems_map {encode : α → Json} {values : List α}
    (h : ∀ value ∈ values, (encode value).Exact) : ExactItems (values.map encode) := by
  induction values with
  | nil => trivial
  | cons value values ih =>
    exact ⟨h value List.mem_cons_self, ih fun other ho => h other (List.mem_cons_of_mem _ ho)⟩

theorem exact_strings (values : List String) : (strings values).Exact :=
  exactItems_map fun _ _ => trivial

theorem exactMembers_map (encode : α → Json) {entries : List (String × α)}
    (h : ∀ entry ∈ entries, (encode entry.2).Exact) :
    ExactMembers (entries.map fun (name, value) => (name, encode value)) := by
  induction entries with
  | nil => trivial
  | cons entry entries ih =>
    exact ⟨h entry List.mem_cons_self, ih fun other ho => h other (List.mem_cons_of_mem _ ho)⟩

theorem exact_nullable {encode : α → Json} {value? : Option α}
    (h : ∀ value ∈ value?, (encode value).Exact) : (nullable encode value?).Exact := by
  cases value? with
  | none => trivial
  | some value => exact h value rfl

end StyleTokens.Json
