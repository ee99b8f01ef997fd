/-
Documents that are taken as a whole.

When a document is taken as a whole, the members of an object are put in order of their names,
and of several members of one name the last one stays.  It must not nest too deeply, nor hold
what no value can hold.

* `Json.Shallow` — a document of integers, texts and the like, which nests so deep at most;
* `exists_plain` — such a document can be taken as a whole;
* `member?_plain` — its members are then those that it had;
* `shallow_toJson` — the report of a scan is such a document.

Design notes: depth is counted down as in the reader, so that a bound for a record is found
from those for the records in it.
-/
import StyleTokens.Proofs.Json.Decoding
import StyleTokens.Scan.Record

namespace StyleTokens

namespace Json

variable {α : Type} {depth : Nat} {name other : String} {value : Json}
  {members done plain : List (String × Json)}

mutual

/-- A document that nests at most `depth` levels deep, without unreadable text and without
numbers other than integers. -/
def Shallow (depth : Nat) : Json → Prop
  | real _ _ _ => False
  | unreadable => False
  | array items => 0 < depth ∧ ShallowItems (depth - 1) items
  | object members => 0 < depth ∧ ShallowMembers (depth - 1) members
  | _ => True

/-- `Shallow` for the items of an array. -/
def ShallowItems (depth : Nat) : List Json → Prop
  | [] => True
  | item :: items => item.Shallow depth ∧ ShallowItems depth items

/-- `Shallow` for the members of an object. -/
def ShallowMembers (depth : Nat) : List (String × Json) → Prop
  | [] => True
  | (_, value) :: members => value.Shallow depth ∧ ShallowMembers depth members

end

/-! ### Documents that can be taken as a whole -/

mutual

/-- **A shallow document can be taken as a whole.** -/
theorem exists_plain : ∀ (document : Json) (depth : Nat), document.Shallow depth →
    ∃ plain, document.plain? depth = some plain
  | .null, _, _ => ⟨_, by rw [plain?] <;> simp⟩
  | .bool _, _, _ => ⟨_, by rw [plain?] <;> simp⟩
  | .integer _, _, _ => ⟨_, by rw [plain?] <;> simp⟩
  | .string _, _, _ => ⟨_, by rw [plain?] <;> simp⟩
  | .array items, depth, h => by
    obtain ⟨hpos, hitems⟩ := h
    obtain ⟨plain, hplain⟩ := exists_plainItems items (depth - 1) hitems
    exact ⟨_, by rw [plain?, if_neg hpos.ne', hplain]; rfl⟩
  | .object members, depth, h => by
    obtain ⟨hpos, hmembers⟩ := h
    obtain ⟨plain, hplain⟩ := exists_plainMembers members (depth - 1) [] hmembers
    exact ⟨_, by rw [plain?, if_neg hpos.ne', hplain]; rfl⟩

theorem exists_plainItems : ∀ (items : List Json) (depth : Nat), ShallowItems depth items →
    ∃ plain, plainItems? depth items = some plain
  | [], _, _ => ⟨_, by rw [plainItems?]⟩
  | item :: items, depth, h => by
    obtain ⟨first, hfirst⟩ := exists_plain item depth h.1
    obtain ⟨rest, hrest⟩ := exists_plainItems items depth h.2
    exact ⟨_, by rw [plainItems?, hfirst, hrest]; rfl⟩

theorem exists_plainMembers : ∀ (members : List (String × Json)) (depth : Nat)
    (done : List (String × Json)), ShallowMembers depth members →
    ∃ plain, plainMembers? depth done members = some plain
  | [], _, _, _ => ⟨_, by rw [plainMembers?]⟩
  | (name, value) :: members, depth, done, h => by
    obtain ⟨first, hfirst⟩ := exists_plain value depth h.1
    obtain ⟨plain, hplain⟩ := exists_plainMembers members depth (insertMember name first done) h.2
    exact ⟨plain, by rw [plainMembers?, hfirst]; exact hplain⟩

end

/-- Texts are taken as they are. -/
theorem plain?_strings (values : List String) (h : 0 < depth) :
    (strings values).plain? depth = some (strings values) := by
  have hitems : ∀ depth, plainItems? depth (values.map string) = some (values.map string) := by
    intro depth
    induction values with
    | nil => rw [List.map_nil, plainItems?]
    | cons value values ih =>
      rw [List.map_cons, plainItems?, ih, plain?] <;> simp
  rw [strings, plain?, if_neg h.ne', hitems]
  rfl

/-! ### Members in order -/

/-- Members in order of their names, each name once. -/
def Ordered (members : List (String × Json)) : Prop :=
  members.Pairwise fun a b => a.1 < b.1

theorem mem_insertMember {member : String × Json} (h : member ∈ insertMember name value members) :
    member = (name, value) ∨ member ∈ members := by
  induction members with
  | nil => exact Or.inl (List.mem_singleton.1 h)
  | cons head members ih =>
    obtain ⟨other, old⟩ := head
    rw [insertMember] at h
    split at h
    · exact (List.mem_cons.1 h).imp_right (List.mem_cons_of_mem _)
    · split at h
      · exact List.mem_cons.1 h
      · rcases List.mem_cons.1 h with rfl | h
        · exact Or.inr List.mem_cons_self
        · exact (ih h).imp_right (List.mem_cons_of_mem _)

theorem Ordered.insertMember (h : Ordered members) (name : String) (value : Json) :
    Ordered (insertMember name value members) := by
  induction members with
  | nil => exact List.pairwise_singleton _ _
  | cons head members ih =>
    obtain ⟨other, old⟩ := head
    obtain ⟨hfirst, hrest⟩ := List.pairwise_cons.1 h
    rw [Json.insertMember]
    split
    · next heq =>
      subst heq
      exact List.pairwise_cons.2 ⟨hfirst, hrest⟩
    · split
      · next hlt =>
        refine List.pairwise_cons.2 ⟨fun member hm => ?_, h⟩
        rcases List.mem_cons.1 hm with rfl | hm
        · exact hlt
        · exact hlt.trans (hfirst member hm)
      · next hne hlt =>
        refine List.pairwise_cons.2 ⟨fun member hm => ?_, ih hrest⟩
        rcases mem_insertMember hm with rfl | hm
        · exact lt_of_le_of_ne (not_lt.1 hlt) (Ne.symm hne)
        · exact hfirst member hm

theorem lookup_cons_eq (name other : String) (value : Json) (members : List (String × Json)) :
    ((other, value) :: members).lookup name =
      if name = other then some value else members.lookup name := by
  rw [List.lookup_cons]
  by_cases h : name = other
  · subst h
    simp
  · rw [if_neg h, beq_eq_false_iff_ne.2 h]

theorem lookup_insertMember : (insertMember name value members).lookup other =
    if other = name then some value else members.lookup other := by
  induction members with
  | nil => rw [insertMember, lookup_cons_eq]
  | cons head members ih =>
    obtain ⟨first, old⟩ := head
    rw [insertMember]
    split
    · next heq =>
      subst heq
      rw [lookup_cons_eq, lookup_cons_eq]
      split <;> rfl
    · next hne =>
      split
      · rw [lookup_cons_eq]
      · rw [lookup_cons_eq, ih, lookup_cons_eq]
        by_cases ho : other = first
        · have hother : other ≠ name := fun h => hne (h.symm.trans ho)
          rw [if_pos ho, if_pos ho, if_neg hother]
        · rw [if_neg ho, if_neg ho]

/-- Where each name is there once, its first member is its last one. -/
theorem Ordered.lookup_reverse (h : Ordered members) (name : String) :
    members.reverse.lookup name = members.lookup name := by
  induction members with
  | nil => rfl
  | cons head members ih =>
    obtain ⟨other, value⟩ := head
    obtain ⟨hfirst, hrest⟩ := List.pairwise_cons.1 h
    rw [List.reverse_cons, List.lookup_append, ih hrest, lookup_cons_eq, lookup_cons_eq]
    by_cases hname : name = other
    · have hnone : members.lookup name = none := by
        rw [List.lookup_eq_none_iff]
        intro member hm
        simpa [hname] using (hfirst member hm).ne
      rw [if_pos hname, if_pos hname, hnone, Option.none_or]
    · rw [if_neg hname, if_neg hname]
      exact Option.or_none

/-- What members become when they are taken as a whole: those of a name give way to the last
one. -/
theorem plainMembers?_spec (h : plainMembers? depth done members = some plain)
    (hdone : Ordered done) : Ordered plain ∧
      (∀ name value, members.reverse.lookup name = some value →
        ∃ inner, value.plain? depth = some inner ∧ plain.lookup name = some inner) ∧
      ∀ name, members.reverse.lookup name = none → plain.lookup name = done.lookup name := by
  induction members generalizing done with
  | nil =>
    rw [plainMembers?] at h
    obtain rfl := Option.some.inj h
    exact ⟨hdone, nofun, fun _ _ => rfl⟩
  | cons head members ih =>
    obtain ⟨first, value⟩ := head
    rw [plainMembers?] at h
    obtain ⟨inner, hinner, hrest⟩ := Option.bind_eq_some_iff.1 h
    obtain ⟨hordered, hlast, hothers⟩ := ih hrest (hdone.insertMember first inner)
    refine ⟨hordered, fun name found hfound => ?_, fun name hnone => ?_⟩
    · rw [List.reverse_cons, List.lookup_append, Option.or_eq_some_iff] at hfound
      rcases hfound with hfound | ⟨hnone, hfound⟩
      · exact hlast name found hfound
      · rw [lookup_cons_eq] at hfound
        split at hfound
        · next heq =>
          subst heq
          obtain rfl := Option.some.inj hfound
          refine ⟨inner, hinner, ?_⟩
          rw [hothers name hnone, lookup_insertMember, if_pos rfl]
        · cases hfound
    · rw [List.reverse_cons, List.lookup_append, Option.or_eq_none_iff] at hnone
      obtain ⟨hnone, hsingle⟩ := hnone
      have hne : name ≠ first := by
        rintro rfl
        rw [lookup_cons_eq, if_pos rfl] at hsingle
        cases hsingle
      rw [hothers name hnone, lookup_insertMember, if_neg hne]

/-- **The members of an object that is taken as a whole** are those that it had, taken as a
whole. -/
theorem member?_plain {document : Json} (h : (object members).plain? depth = some document) :
    (∃ plain, document = object plain) ∧
      ∀ name value, (object members).member? name = some value →
        ∃ inner, value.plain? (depth - 1) = some inner ∧ document.member? name = some inner := by
  rw [plain?] at h
  split at h
  · cases h
  · obtain ⟨plain, hplain, rfl⟩ := Option.map_eq_some_iff.1 h
    obtain ⟨hordered, hlast, -⟩ := plainMembers?_spec hplain List.Pairwise.nil
    refine ⟨⟨plain, rfl⟩, fun name value hvalue => ?_⟩
    obtain ⟨inner, hinner, hfound⟩ := hlast name value hvalue
    exact ⟨inner, hinner, (hordered.lookup_reverse name).trans hfound⟩

/-! ### Lists that are written -/

theorem shallowItems_map {encode : α → Json} {values : List α}
    (h : ∀ value ∈ values, (encode value).Shallow depth) :
    ShallowItems depth (values.map encode) := by
  induction values with
  | nil => exact trivial
  | cons value values ih =>
    obtain ⟨hfirst, hrest⟩ := List.forall_mem_cons.1 h
    exact ⟨hfirst, ih hrest⟩

theorem shallow_strings (values : List String) : (strings values).Shallow (depth + 1) :=
  ⟨Nat.succ_pos _, shallowItems_map fun _ _ => trivial⟩

theorem shallow_ofCounts (counts : List (String × Nat)) :
    (ofCounts counts).Shallow (depth + 1) := by
  refine ⟨Nat.succ_pos _, ?_⟩
  induction counts with
  | nil => exact trivial
  | cons count counts ih => exact ⟨trivial, ih⟩

end Json

/-! ### Reports of scans -/

variable {depth : Nat}

theorem Tally.shallow_toJson (tally : Tally) : tally.toJson.Shallow (depth + 2) :=
  ⟨Nat.succ_pos _, trivial, trivial, trivial, trivial, trivial, Json.shallow_ofCounts _, trivial⟩

theorem IssueEntry.shallow_toJson (entry : IssueEntry) : entry.toJson.Shallow (depth + 4) :=
  ⟨Nat.succ_pos _, trivial, trivial, trivial, trivial,
    ⟨Nat.succ_pos _, Json.shallowItems_map fun tally _ => tally.shallow_toJson⟩, trivial⟩

/-- **The report of a scan** nests six levels deep at most. -/
theorem IssueRecord.shallow_toJson (record : IssueRecord) : record.toJson.Shallow (depth + 6) :=
  ⟨Nat.succ_pos _, trivial, trivial, trivial, trivial, Json.shallow_strings _,
    ⟨Nat.succ_pos _, Json.shallowItems_map fun entry _ => entry.shallow_toJson⟩,
    Json.shallow_strings _,
    ⟨Nat.succ_pos _, Json.shallowItems_map fun _ _ => ⟨Nat.succ_pos _, trivial, trivial, trivial⟩⟩,
    trivial, trivial, Json.shallow_ofCounts _, trivial, trivial⟩

end StyleTokens
