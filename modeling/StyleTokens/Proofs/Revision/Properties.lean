/-
Leads of declarations, and rules that look for values of properties.

The lead of a declaration is the name of a property behind a boundary, with a
colon and a gap after it: `;margin-top: `.  What stands behind a lead can be told
from a part of a lead, so that two leads with something behind them overlap only
if both end at the same place.  The pattern of a rule for a property is a boundary, a name, a colon
and a gap, and then the value.  Its matches are those of a phrase whose leads are leads of
declarations, so that a set of such rules is orderly when their values can be told from leads.

* `Lead` — a boundary, a name, a colon and a gap;
* `NoLead` — words of which no lead reads on behind their beginning, and in which
  none begins;
* `ClearOf` — no gap leads from the beginning of a word to a later one;
* `Lead.front_eq` — overlapping leads end at the same place;
* `Lead.exists_common_name` — leads that end at the same place have the same name;
* `Property` — the parts of the pattern that differ from rule to rule;
* `Property.exists_follows` — the rule follows a phrase;
* `Property.Family` — a rule set of properties whose values stand apart;
* `Property.Family.exists_orderly` — such a rule set is orderly.

Design notes: `Property.sound` is computed, so that a given pattern is checked by
evaluation.
-/
import StyleTokens.Proofs.Pattern.Words
import StyleTokens.Proofs.Revision.Redex
import StyleTokens.Proofs.Revision.Substitutions

namespace StyleTokens

open Text

/-- What may stand in front of the name of a property. -/
def boundarySet : CharSet :=
  ⟨[⟨9, 13⟩, ⟨32, 32⟩, ⟨34, 34⟩, ⟨39, 39⟩, ⟨59, 59⟩, ⟨123, 123⟩]⟩

/-- The characters of names: letters and the hyphen. -/
def nameSet : CharSet :=
  ⟨[⟨45, 45⟩, ⟨65, 90⟩, ⟨97, 122⟩]⟩

/-- What names may begin with: a letter, but not the one that tokens begin with. -/
def startSet : CharSet :=
  ⟨[⟨65, 90⟩, ⟨97, 117⟩, ⟨119, 122⟩]⟩

/-- Names of properties. -/
def AreNames (names : List Char → Prop) : Prop :=
  ∀ n, names n → (∃ c t, n = c :: t ∧ startSet.contains c = true) ∧
    ∀ c ∈ n, nameSet.contains c = true

/-- A boundary, a name, a colon and a gap; at the start of a text, no boundary is
needed. -/
def Lead (names : List Char → Prop) (gap : CharSet) (atStart : Bool) (f : List Char) : Prop :=
  ∃ l n s g, f = l ++ (n ++ (s ++ ':' :: g)) ∧
    (l = [] ∧ atStart = true ∨ ∃ c, l = [c] ∧ boundarySet.contains c = true) ∧
    names n ∧ (∀ c ∈ s, CharSet.space.contains c = true) ∧ ∀ c ∈ g, gap.contains c = true

/-- A word that no lead can reach into from the left, up to a colon, and in which
none can begin. -/
structure NoLead (v : List Char) : Prop where
  stop : ∃ x d y, v = x ++ d :: y ∧ ':' ∉ x ∧ d ≠ ':' ∧ nameSet.contains d = false ∧
    CharSet.space.contains d = false
  inside : ∀ x c y, v = x ++ c :: y → boundarySet.contains c = true →
    ∃ d z, y = d :: z ∧ startSet.contains d = false

/-- Where both words stand in a text, the first one in front, what lies between
their beginnings is no gap. -/
def ClearOf (gap : CharSet) (v v' : List Char) : Prop :=
  ∀ z r r', v ++ r = z ++ (v' ++ r') → z ≠ [] → ∃ c ∈ z, gap.contains c = false

/-- A text has one last character without a property. -/
theorem append_cons_inj_of_forall {p : Char → Prop} {x x' g g' : List Char} {c c' : Char}
    (h : x ++ c :: g = x' ++ c' :: g') (hg : ∀ d ∈ g, p d) (hg' : ∀ d ∈ g', p d) (hc : ¬ p c)
    (hc' : ¬ p c') : x = x' ∧ c = c' ∧ g = g' := by
  rcases List.append_eq_append_iff.1 h with ⟨m, rfl, hm⟩ | ⟨m, rfl, hm⟩
  · cases m with
    | nil =>
      obtain ⟨rfl, rfl⟩ := List.cons.inj hm
      simp
    | cons e m =>
      obtain ⟨rfl, rfl⟩ := List.cons.inj hm
      exact absurd (hg c' (by simp)) hc'
  · cases m with
    | nil =>
      obtain ⟨rfl, rfl⟩ := List.cons.inj hm
      simp
    | cons e m =>
      obtain ⟨rfl, rfl⟩ := List.cons.inj hm
      exact absurd (hg' c (by simp)) hc

namespace Lead

variable {names names' : List Char → Prop} {gap : CharSet} {a f v r a' f' v' r' : List Char}

theorem colon_mem {s : Bool} (h : Lead names gap s f) : ':' ∈ f := by
  obtain ⟨l, n, s, g, rfl, -⟩ := h
  simp

/-- No lead ends behind the beginning of a word that it overlaps. -/
theorem not_behind (hf : Lead names gap a'.isEmpty f') (hnames : AreNames names)
    (htext : a ++ (v ++ r) = a' ++ (f' ++ (v' ++ r'))) (ha : a ≠ []) (hv : NoLead v)
    (hclear : ClearOf gap v v') (hlt : byteLength a < byteLength (a' ++ f')) :
    byteLength (a ++ v) ≤ byteLength a' := by
  by_contra hover
  rw [not_le] at hover
  obtain ⟨l, n, s, g, rfl, hl, hn, hs, hg⟩ := hf
  obtain ⟨⟨e, t, rfl, he⟩, hname⟩ := hnames n hn
  rcases Nat.lt_or_ge (byteLength a') (byteLength a) with hin | hout
  · -- The lead begins before the word.
    obtain ⟨q, rfl, hq⟩ := append_eq_append_of_le htext.symm hin.le
    have hqne : q ≠ [] := by
      rintro rfl
      simp at hin
    rw [byteLength_append, byteLength_append, Nat.add_lt_add_iff_left] at hlt
    obtain ⟨z, hz, hrest⟩ := append_eq_append_of_le hq.symm hlt.le
    have hzne : z ≠ [] := by
      rintro rfl
      rw [hz] at hlt
      simp at hlt
    have hz' : (l ++ (e :: t ++ s)) ++ ':' :: g = q ++ z := by
      rw [← hz]
      simp
    rcases Nat.lt_or_ge (byteLength (l ++ (e :: t ++ s))) (byteLength q) with hgap | hname'
    · -- The gap would reach from the beginning of the word to the other one.
      obtain ⟨q', rfl, hq'⟩ := append_eq_append_of_le hz' hgap.le
      cases q' with
      | nil => simp at hgap
      | cons b q' =>
        obtain ⟨-, rfl⟩ := List.cons.inj hq'
        obtain ⟨c, hc, hnot⟩ := hclear z r r' hrest hzne
        rw [hg c (List.mem_append_right _ hc)] at hnot
        exact absurd hnot (by simp)
    · -- The name, or what stands between it and the colon, would go through the word.
      obtain ⟨w, hw', rfl⟩ := append_eq_append_of_le hz'.symm hname'
      have hw : ∀ c ∈ w, nameSet.contains c = true ∨ CharSet.space.contains c = true := by
        have hlen : l.length ≤ q.length := by
          have := List.length_pos_iff.2 hqne
          rcases hl with ⟨rfl, -⟩ | ⟨c, rfl, -⟩
          · exact Nat.zero_le _
          · exact this
        obtain ⟨q', rfl⟩ : l <+: q :=
          List.prefix_of_prefix_length_le (List.prefix_append l (e :: t ++ s))
            (hw' ▸ List.prefix_append q w) hlen
        rw [List.append_assoc, List.append_cancel_left_eq] at hw'
        intro c hc
        have : c ∈ e :: t ++ s := by
          rw [hw']
          exact List.mem_append_right _ hc
        rcases List.mem_append.1 this with hc | hc
        · exact Or.inl (hname c hc)
        · exact Or.inr (hs c hc)
      obtain ⟨x, d, y, rfl, hx, hd, hdname, hdspace⟩ := hv.stop
      have hcut : x ++ d :: (y ++ r) = w ++ ':' :: (g ++ (v' ++ r')) := by
        simpa using hrest
      rcases List.append_eq_append_iff.1 hcut with ⟨m, rfl, hm⟩ | ⟨m, rfl, hm⟩
      · cases m with
        | nil => exact hd (List.cons.inj hm).1
        | cons b m =>
          obtain ⟨rfl, -⟩ := List.cons.inj hm
          rcases hw d (by simp) with h | h
          · rw [hdname] at h
            exact absurd h (by simp)
          · rw [hdspace] at h
            exact absurd h (by simp)
      · cases m with
        | nil => exact hd (List.cons.inj hm).1.symm
        | cons b m =>
          obtain ⟨rfl, -⟩ := List.cons.inj hm
          simp at hx
  · -- The lead begins in the word.
    obtain ⟨m, rfl, hm⟩ := append_eq_append_of_le htext hout
    rw [byteLength_append, byteLength_append, Nat.add_lt_add_iff_left] at hover
    have hne : (a ++ m).isEmpty = false := by
      rw [List.isEmpty_eq_false_iff]
      simp [ha]
    rw [hne] at hl
    obtain ⟨c, rfl, hc⟩ := hl.resolve_left (by simp)
    obtain ⟨u, hu, hrest⟩ := append_eq_append_of_le hm.symm hover.le
    cases u with
    | nil =>
      rw [hu] at hover
      simp at hover
    | cons b u =>
      obtain ⟨hcb, htail⟩ := List.cons.inj
        (show c :: e :: (t ++ (s ++ ':' :: g) ++ (v' ++ r')) = b :: (u ++ r) from hrest)
      obtain ⟨d, z, rfl, hd⟩ := hv.inside m b u hu (hcb ▸ hc)
      obtain ⟨hed, -⟩ := List.cons.inj htail
      rw [← hed, he] at hd
      exact absurd hd (by simp)

/-- **Overlapping leads end at the same place.** -/
theorem front_eq (hf : Lead names gap a.isEmpty f) (hf' : Lead names' gap a'.isEmpty f')
    (hnames : AreNames names) (hnames' : AreNames names')
    (htext : a ++ (f ++ (v ++ r)) = a' ++ (f' ++ (v' ++ r'))) (hv : NoLead v) (hv' : NoLead v')
    (hclear : ClearOf gap v v') (hclear' : ClearOf gap v' v)
    (h1 : byteLength a < byteLength (a' ++ (f' ++ v')))
    (h2 : byteLength a' < byteLength (a ++ (f ++ v))) : a ++ f = a' ++ f' := by
  have htext' : (a ++ f) ++ (v ++ r) = (a' ++ f') ++ (v' ++ r') := by
    rw [List.append_assoc, htext, List.append_assoc]
  rcases Nat.lt_trichotomy (byteLength (a ++ f)) (byteLength (a' ++ f')) with hlt | heq | hgt
  · have := hf'.not_behind hnames' (by rw [htext', List.append_assoc])
      (by simp [List.ne_nil_of_mem hf.colon_mem]) hv hclear hlt
    simp only [byteLength_append] at this h2
    omega
  · exact (append_inj_of_byteLength htext' heq).1
  · have := hf.not_behind hnames (by rw [← htext', List.append_assoc])
      (by simp [List.ne_nil_of_mem hf'.colon_mem]) hv' hclear' hgt
    simp only [byteLength_append] at this h1
    omega

/-- Leads that end at the same place have the same name, if no gap has a colon. -/
theorem exists_common_name (hf : Lead names gap a.isEmpty f) (hf' : Lead names' gap a'.isEmpty f')
    (hnames : AreNames names) (hnames' : AreNames names') (hgap : gap.contains ':' = false)
    (h : a ++ f = a' ++ f') : ∃ n, names n ∧ names' n := by
  obtain ⟨l, n, s, g, rfl, hl, hn, hs, hg⟩ := hf
  obtain ⟨l', n', s', g', rfl, hl', hn', hs', hg'⟩ := hf'
  obtain ⟨⟨e, t, hne, -⟩, hall⟩ := hnames n hn
  obtain ⟨⟨e', t', hne', -⟩, hall'⟩ := hnames' n' hn'
  -- The colons are the last ones, and what stands before them is the same.
  obtain ⟨h1, -, -⟩ := append_cons_inj_of_forall (p := fun c => gap.contains c = true)
    (show (a ++ (l ++ (n ++ s))) ++ ':' :: g = (a' ++ (l' ++ (n' ++ s'))) ++ ':' :: g' by
      simpa using h) hg hg' (by simp [hgap]) (by simp [hgap])
  -- So the names end at the same place, with a character that is no white space.
  have hspace : ∀ c, nameSet.contains c = true → ¬ CharSet.space.contains c = true := fun c hc => by
    rw [CharSet.not_contains_of_apart nameSet .space (by decide) hc]
    simp
  obtain ⟨u, b, hu⟩ := n.eq_nil_or_concat'.resolve_left (by simp [hne])
  obtain ⟨u', b', hu'⟩ := n'.eq_nil_or_concat'.resolve_left (by simp [hne'])
  obtain ⟨h2, hb, -⟩ := append_cons_inj_of_forall (p := fun c => CharSet.space.contains c = true)
    (show (a ++ (l ++ u)) ++ b :: s = (a' ++ (l' ++ u')) ++ b' :: s' by simpa [hu, hu'] using h1)
    hs hs' (hspace b (hall b (by simp [hu]))) (hspace b' (hall' b' (by simp [hu'])))
  have h3 : a ++ (l ++ n) = a' ++ (l' ++ n') := by
    have := congrArg (· ++ [b]) h2
    simpa [hu, hu', hb] using this
  -- And they begin at the same place, behind a character that is in no name.
  have hbound : ∀ c, boundarySet.contains c = true → ¬ nameSet.contains c = true := fun c hc => by
    rw [CharSet.not_contains_of_apart boundarySet nameSet (by decide) hc]
    simp
  rcases hl with ⟨rfl, ha⟩ | ⟨c, rfl, hc⟩ <;> rcases hl' with ⟨rfl, ha'⟩ | ⟨c', rfl, hc'⟩
  · rw [List.isEmpty_iff] at ha ha'
    subst ha ha'
    exact ⟨n, hn, (show n = n' from h3) ▸ hn'⟩
  · rw [List.isEmpty_iff] at ha
    subst ha
    have h3 : n = a' ++ ([c'] ++ n') := h3
    exact absurd (hall c' (by simp [h3])) (hbound c' hc')
  · rw [List.isEmpty_iff] at ha'
    subst ha'
    have h3 : a ++ ([c] ++ n) = n' := h3
    exact absurd (hall' c (by simp [← h3])) (hbound c hc)
  · obtain ⟨-, -, rfl⟩ := append_cons_inj_of_forall (p := fun c => nameSet.contains c = true)
      (show a ++ c :: n = a' ++ c' :: n' from h3) hall hall' (hbound c hc) (hbound c' hc')
    exact ⟨n, hn, hn'⟩

end Lead

/-! ### Properties -/

open Pattern Thread

/-- The parts of a pattern that looks for the value of a property. -/
structure Property where
  /-- The name, piece by piece. -/
  name : List Pattern
  /-- What may stand between the colon and the value. -/
  gap : List Pattern
  value : Pattern

namespace Property

/-- A boundary, or the start of the text. -/
def boundary : Pattern :=
  .alt (.assert .textStart) (.one boundarySet)

/-- The lead behind its boundary. -/
def body (p : Property) : List Pattern :=
  p.name ++ .rounds 0 none true (.one .space) :: .one (.single ':') :: p.gap

/-- The pattern. -/
def pattern (p : Property) : Pattern :=
  .declaration (boundary :: p.body) valueGroup p.value

/-- Whether nothing in the pattern but its boundary looks around, and its value never
asks for a colon. -/
def sound (p : Property) : Bool :=
  p.body.all isPlain && p.value.avoids ':' && p.pattern.starsConsume && !p.pattern.matchesNothing

/-- The leads of the pattern. -/
def lead (p : Property) (atStart : Bool) (f : List Char) : Prop :=
  ∃ l r, f = l ++ r ∧
    (l = [] ∧ atStart = true ∨ ∃ c, l = [c] ∧ boundarySet.contains c = true) ∧ WordsSeq p.body r

theorem isNone_endChar (a : List Char) : (endChar none a).isNone = a.isEmpty := by
  have : ∀ (u : List Char) (c : Char), (endChar (some c) u).isNone = false := by
    intro u
    induction u with
    | nil => exact fun _ => rfl
    | cons d u ih => exact fun _ => ih d
  cases a with
  | nil => rfl
  | cons c a => exact this a c

theorem spells_iff_lead {p : Property} (hbody : p.body.all isPlain = true) (a f after : List Char) :
    spellsSeq (boundary :: p.body) (endChar none a) f after ↔ p.lead a.isEmpty f := by
  have hblind : ∀ q ∈ p.body, q.Blind := fun q hq =>
    blind_of_isPlain (List.all_eq_true.1 hbody q hq)
  have hwords := spellsSeq_iff_words hblind
  constructor
  · rintro ⟨l, r, rfl, hl, hr⟩
    refine ⟨l, r, rfl, ?_, (hwords _ _ _).1 hr⟩
    rcases hl with ⟨rfl, hstart⟩ | h
    · exact Or.inl ⟨rfl, (isNone_endChar a).symm.trans hstart⟩
    · exact Or.inr h
  · rintro ⟨l, r, rfl, hl, hr⟩
    refine ⟨l, r, rfl, ?_, (hwords _ _ _).2 hr⟩
    rcases hl with ⟨rfl, hstart⟩ | h
    · exact Or.inl ⟨rfl, (isNone_endChar a).trans hstart⟩
    · exact Or.inr h

theorem words_body {p : Property} {r : List Char} (h : WordsSeq p.body r) : ∃ n u g,
    r = n ++ (u ++ ':' :: g) ∧ WordsSeq p.name n ∧
      (∀ c ∈ u, CharSet.space.contains c = true) ∧ WordsSeq p.gap g := by
  obtain ⟨n, _, rfl, hn, u, _, rfl, hu, _, g, rfl, ⟨c, rfl, hc⟩, hg⟩ := wordsSeq_append.1 h
  obtain rfl : c = ':' := by
    simp only [CharSet.single, CharSet.contains_span, Bool.and_eq_true, decide_eq_true_eq] at hc
    exact Char.toNat_inj.1 (by omega)
  exact ⟨n, u, g, rfl, hn, (words_rounds_one.1 hu).2.2, hg⟩

/-- Such leads are leads of declarations. -/
theorem lead_of {p : Property} {names : List Char → Prop} {gap : CharSet}
    (hname : ∀ n, WordsSeq p.name n → names n) (hgap : p.gap.all (within gap) = true)
    {s : Bool} {f : List Char} (h : p.lead s f) : Lead names gap s f := by
  obtain ⟨l, r, rfl, hl, hr⟩ := h
  obtain ⟨n, u, g, rfl, hn, hu, hg⟩ := words_body hr
  exact ⟨l, n, u, g, rfl, hl, hname n hn, hu, contains_of_wordsSeq hgap hg⟩

/-- Values that can be read again once they have been replaced, and what may stand
in their place. -/
structure Values (p : Property) (table : TokenTable) (rule : Rule) (bears : List Char → Prop) :
    Prop where
  readable : ∀ w, p.value.Words w → Readable rule w
  bears_of_words : ∀ w, p.value.Words w → bears w
  ne_nil : ∀ v, bears v → v ≠ []
  bears_text : ∀ w, p.value.Words w → (Substitution.ofValue table rule w).replaced ≠ 0 →
    bears (Substitution.ofValue table rule w).text

/-- A rule with such a pattern follows a phrase. -/
theorem exists_follows {p : Property} {table : TokenTable} {rule : Rule}
    {bears : List Char → Prop} (hpattern : rule.pattern = p.pattern) (hsound : p.sound = true)
    (htable : table.HasVariables) (hvalues : p.Values table rule bears) :
    ∃ phrase : Phrase, rule.Follows table phrase ∧ phrase.lead = p.lead ∧ phrase.bears = bears ∧
      ∀ rest w, phrase.reads rest w → p.value.Words w := by
  simp only [sound, Bool.and_eq_true, Bool.not_eq_true'] at hsound
  obtain ⟨⟨⟨hbody, havoids⟩, hstars⟩, hsolid⟩ := hsound
  have hvalue := isPlain_of_avoids havoids
  obtain ⟨nodes, node, hdeclares, hnodes, hnode, hleaves⟩ := exists_declares (boundary :: p.body)
    valueGroup p.value (fun q hq => by
      rcases List.mem_cons.1 hq with rfl | hq
      · simp [GroupFree, boundary, leaves]
      · exact groupFree_of_isPlain (List.all_eq_true.1 hbody q hq))
    (groupFree_of_isPlain hvalue)
  have hprogram : rule.program = p.pattern.program := by rw [rule.program_eq, hpattern]
  have hregular := program_regular hstars
  have hempty : p.pattern.program.root.matchesNothing = false := by
    rw [program_matchesNothing, hsolid]
  rw [← pattern, ← hprogram] at hdeclares
  rw [← hprogram] at hregular hempty
  have hfree : ∀ n ∈ [node], n.GroupFree := by simpa using hdeclares.value_free
  have hcolon : ∀ n ∈ [node], n.Avoids ':' := by simpa using node_avoids havoids hleaves
  have hlead := spells_iff_lead hbody
  have hwords : ∀ rest w, Picks none rest [node] (some w) → p.value.Words w := by
    intro rest w h
    obtain ⟨after, -, hs⟩ := h.spells hfree
    rw [spellsAll, spellsAll, Language.seq_nothing, hnode] at hs
    exact (spells_iff_words (blind_of_isPlain hvalue) _ _ _).1 hs
  refine ⟨⟨p.lead, fun rest w => Picks none rest [node] (some w), bears⟩, ?_, rfl, rfl, hwords⟩
  constructor
  · intro text found hm
    obtain ⟨a, rest, rfl, hy⟩ := hregular.yields_of_mem_occurrences hempty hm
    obtain ⟨f, w, b, rfl, hs, hp, rfl⟩ := hdeclares.yieldsAt hy
    rw [hnodes, hlead] at hs
    exact ⟨a, f, w, b, rfl, hs, hp.upTo hfree hcolon (.refl _ _) none, rfl, rfl⟩
  · intro a f w b hf hw
    have hs : spellsAll nodes (endChar none a) f (w ++ b) := by
      rw [hnodes, hlead]
      exact hf
    obtain ⟨found, hy⟩ := hdeclares.exists_yieldsAt hregular hs
      (hw.upTo hfree hcolon (.refl _ _) _)
    exact hregular.exists_mem_occurrences hempty hy
  · rintro s _ ⟨l, r, rfl, -, hr⟩
    obtain ⟨n, u, g, rfl, -⟩ := words_body hr
    simp
  · exact fun rest w w' hw hw' => Option.some.inj (hw.unique hw' hfree)
  · exact fun u tail tail' w hw => hw.upTo hfree hcolon (.append _ _ _ u) none
  · exact fun rest w hw => hvalues.bears_of_words w (hwords rest w hw)
  · exact hvalues.ne_nil
  · exact fun rest w hw => (hvalues.readable w (hwords rest w hw)).head
  · exact fun rest w hw => hvalues.bears_text w (hwords rest w hw)
  · exact fun rest w hw hr w' b b' htext hw' hend =>
      (hvalues.readable w (hwords rest w hw)).replaced_eq_zero htable hr
        (hvalues.readable w' (hwords _ w' hw')) htext hend
  · exact fun rest w hw => (hvalues.readable w (hwords rest w hw)).exists_inert htable

/-- A rule set of properties whose values stand apart from leads and from one
another. -/
structure Family (set : RuleSet) (gap : CharSet) (props : Nat → Property)
    (names bears : Nat → List Char → Prop) : Prop where
  table : set.table.HasVariables
  pattern_eq : ∀ i (rule : Rule), set.rules[i]? = some rule → rule.pattern = (props i).pattern
  sound : ∀ i < set.rules.length, (props i).sound = true
  within_gap : ∀ i < set.rules.length, (props i).gap.all (within gap) = true
  name_mem : ∀ i < set.rules.length, ∀ n, WordsSeq (props i).name n → names i n
  areNames : ∀ i < set.rules.length, AreNames (names i)
  values : ∀ i (rule : Rule), set.rules[i]? = some rule →
    (props i).Values set.table rule (bears i)
  noLead : ∀ i v, bears i v → NoLead v
  clear : ∀ i j v v', bears i v → bears j v' → ClearOf gap v v'
  /-- Where two rules agree on the place of a value, they are the same. -/
  same : ∀ i < set.rules.length, ∀ j < set.rules.length, ∀ a f w b a' f' v b',
    a ++ f = a' ++ f' → w ++ b = v ++ b' → Lead (names i) gap a.isEmpty f →
    Lead (names j) gap a'.isEmpty f' → (props i).value.Words w → bears j v → i = j

/-- **Such a rule set is orderly.** -/
theorem Family.exists_orderly {set : RuleSet} {gap : CharSet} {props : Nat → Property}
    {names bears : Nat → List Char → Prop} (h : Family set gap props names bears) :
    ∃ phrases : Nat → Phrase, set.Orderly phrases ∧ ∀ i < set.rules.length, ∀ rest w,
      (phrases i).reads rest w → (props i).value.Words w := by
  have hrules : ∀ i < set.rules.length, ∃ rule, set.rules[i]? = some rule := fun i hi =>
    ⟨_, List.getElem?_eq_getElem hi⟩
  have hphrase : ∀ i, ∃ phrase : Phrase, ∀ rule : Rule, set.rules[i]? = some rule →
      rule.Follows set.table phrase ∧ phrase.lead = (props i).lead ∧ phrase.bears = bears i ∧
        ∀ rest w, phrase.reads rest w → (props i).value.Words w := by
    intro i
    cases hr : set.rules[i]? with
    | none => exact ⟨⟨fun _ _ => False, fun _ _ => False, fun _ => False⟩, by simp⟩
    | some rule =>
      have hi := (List.getElem?_eq_some_iff.1 hr).1
      obtain ⟨phrase, hp⟩ := exists_follows (h.pattern_eq i rule hr) (h.sound i hi) h.table
        (h.values i rule hr)
      refine ⟨phrase, fun other ho => ?_⟩
      obtain rfl := Option.some.inj ho
      exact hp
  choose phrases hphrases using hphrase
  refine ⟨phrases, ⟨fun i rule hr => (hphrases i rule hr).1, ?_⟩, fun i hi rest w hw => ?_⟩
  · intro i j hi hj a f w b a' f' v b' htext hf hw hf' hv h1 h2
    obtain ⟨rule, hr⟩ := hrules i hi
    obtain ⟨other, ho⟩ := hrules j hj
    obtain ⟨-, hlead, -, hwords⟩ := hphrases i rule hr
    obtain ⟨-, hlead', hbears', -⟩ := hphrases j other ho
    have hw := hwords _ _ hw
    have hwb := (h.values i rule hr).bears_of_words w hw
    rw [hbears'] at hv
    rw [hlead] at hf
    rw [hlead'] at hf'
    have hf := lead_of (h.name_mem i hi) (h.within_gap i hi) hf
    have hf' := lead_of (h.name_mem j hj) (h.within_gap j hj) hf'
    have hfront : a ++ f = a' ++ f' := hf.front_eq hf' (h.areNames i hi) (h.areNames j hj) htext
      (h.noLead i w hwb) (h.noLead j v hv) (h.clear i j w v hwb hv) (h.clear j i v w hv hwb) h1 h2
    have hrest : w ++ b = v ++ b' := by
      rw [← List.append_assoc, ← List.append_assoc a', hfront] at htext
      exact List.append_cancel_left htext
    exact ⟨hfront, h.same i hi j hj a f w b a' f' v b' hfront hrest hf hf' hw hv⟩
  · obtain ⟨rule, hr⟩ := hrules i hi
    exact (hphrases i rule hr).2.2.2 rest w hw

end Property

end StyleTokens
