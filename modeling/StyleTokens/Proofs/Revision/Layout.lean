/-
The matches that a rule claims, and a text with the places that rules have claimed in it.

A layout cuts the original text into gaps and sites.  A site is a match that one
rule claimed: the value of the match, what stands before and after it in the
match, and what the rule puts in place of the value, if anything.  Rules are
known by their number in the rule set, and at stage `k` the rules before the
`k`-th have made their changes.

* `Hit.Fits` — a hit splits the text into what stands before it, the part of the
  match before the value, the value, the part after it and the rest;
* `Rule.hitOf?_eq_some_iff` — when a match gives rise to a hit;
* `Rule.hits_fit` — every hit fits its text, has a value that is not blank and
  overlaps no earlier claim;
* `Rule.hits_apart` — the hits of a rule follow one another;
* `RuleSet.change?` — what a rule puts in place of a value;
* `RuleSet.step_eq` — one rule applied to a draft, by its hits and changes;
* `Layout.textAt` — the text at a stage; stage 0 is the original one;
* `Layout.placedFrom` — the sites with their spans at a stage, which are ordered
  and disjoint (`Layout.placedFrom_apart`);
* `Layout.editsFrom` — the changes that one rule makes;
* `splice_editsFrom`, `relocate_placedFrom` — splicing these changes leads to the
  next stage, and relocating a site leads to where it lies there;
* `Layout.exists_insert` — a site can be added where no other one is.

Design notes: a site can be owned by a rule of a later stage, so one layout
describes all stages.  This is what makes a whole run of rules one substitution.
-/
import StyleTokens.Proofs.Pattern.Placement
import StyleTokens.Revision

namespace StyleTokens

open Text

/-- A hit that splits its text in this way. -/
structure Hit.Fits (hit : Hit) (before lead value trail after : List Char) : Prop where
  span_eq : hit.span =
    ⟨byteLength before, byteLength before + byteLength (lead ++ (value ++ trail))⟩
  value_eq : hit.value =
    ⟨byteLength before + byteLength lead,
      byteLength before + byteLength lead + byteLength value⟩
  literal_eq : hit.literal = value
  solid : allBlank value = false
  ended : endsValue (trail ++ after).head? = true

theorem Hit.Fits.value_ne_nil {hit : Hit} {before lead value trail after : List Char}
    (h : hit.Fits before lead value trail after) : value ≠ [] := by
  rintro rfl
  exact absurd h.solid (by simp [allBlank])

theorem overlaps_eq_false {a b : Span} :
    a.overlaps b = false ↔ b.stop ≤ a.start ∨ a.stop ≤ b.start := by
  simp only [Span.overlaps, Bool.and_eq_false_iff, decide_eq_false_iff_not]
  omega

theorem overlapsAny_eq_false {span : Span} {others : List Span} :
    span.overlapsAny others = false ↔ ∀ other ∈ others, span.overlaps other = false := by
  simp [Span.overlapsAny]

namespace Rule

variable {rule : Rule} {claims : List Span} {text : List Char}

/-- The hit that a match gives rise to. -/
def hitOf? (claims : List Span) (text : List Char) (found : Match) : Option Hit := do
  let value ← found.capture? valueGroup
  let literal := slice value text
  if allBlank literal || found.span.overlapsAny claims then none
  else if endsValue (dropBytes value.stop text).head? then some ⟨found.span, value, literal⟩
  else none

theorem hits_eq : rule.hits claims text =
    (rule.program.occurrences text).filterMap (hitOf? claims text) := rfl

/-- When a match gives rise to a hit. -/
theorem hitOf?_eq_some_iff {found : Match} {hit : Hit} :
    hitOf? claims text found = some hit ↔ ∃ value,
      found.capture? valueGroup = some value ∧ hit = ⟨found.span, value, slice value text⟩ ∧
      allBlank (slice value text) = false ∧ found.span.overlapsAny claims = false ∧
      endsValue (dropBytes value.stop text).head? = true := by
  rw [hitOf?]
  cases hv : found.capture? valueGroup with
  | none => simp
  | some value =>
    simp only [Option.bind_eq_bind, Option.bind_some, Option.some.injEq, exists_eq_left']
    constructor
    · intro hh
      split at hh
      · simp at hh
      · next hskip =>
        split at hh
        · next hend =>
          simp only [Bool.or_eq_true, not_or, Bool.not_eq_true] at hskip
          exact ⟨(Option.some.inj hh).symm, hskip.1, hskip.2, hend⟩
        · simp at hh
    · rintro ⟨rfl, hsolid, hfree, hend⟩
      simp [hsolid, hfree, hend]

/-- The literal of a hit is what stands at its value. -/
theorem literal_of_mem_hits {hit : Hit} (h : hit ∈ rule.hits claims text) :
    hit.literal = slice hit.value text := by
  obtain ⟨found, -, hh⟩ := List.mem_filterMap.1 (hits_eq ▸ h)
  obtain ⟨value, -, rfl, -⟩ := hitOf?_eq_some_iff.1 hh
  rfl

/-- A recorded capture is among the records. -/
theorem mem_of_capture? {found : Match} {name : String} {span : Span}
    (h : found.capture? name = some span) : (name, span) ∈ found.captures := by
  obtain ⟨l, r, hlr, -⟩ := List.lookup_eq_some_iff.1 h
  rw [hlr]
  simp

/-- A hit splits its text, and its match overlaps no claim. -/
theorem hits_fit {hit : Hit} (h : hit ∈ rule.hits claims text) :
    (∃ before lead value trail after,
      text = before ++ (lead ++ (value ++ trail) ++ after) ∧
      hit.Fits before lead value trail after) ∧
    hit.span.overlapsAny claims = false := by
  obtain ⟨found, hf, hh⟩ := List.mem_filterMap.1 (hits_eq ▸ h)
  obtain ⟨value, hv, rfl, hsolid, hfree, hend⟩ := hitOf?_eq_some_iff.1 hh
  refine ⟨?_, hfree⟩
  have hplaced := rule.program.occurrences_placed hf
  obtain ⟨hstart, hstop, hin⟩ := hplaced.captures _ value (mem_of_capture? hv)
  obtain ⟨before, m, after, htext, hspan, -⟩ := hplaced.inText.parts
  obtain ⟨front, literal, back, htext', hvalue, hslice⟩ := hin.parts
  rw [hspan, hvalue] at hstart hstop
  dsimp only at hstart hstop
  -- The value starts in the match, so the match begins with a lead before it.
  obtain ⟨lead, rfl, hm⟩ := append_eq_append_of_le (htext.symm.trans htext') hstart
  have hlen : byteLength (lead ++ literal) ≤ byteLength m := by
    simp only [byteLength_append] at hstop ⊢
    omega
  obtain ⟨trail, rfl, hback⟩ := append_eq_append_of_le
    (show lead ++ literal ++ back = m ++ after by rw [hm, List.append_assoc]) hlen
  refine ⟨before, lead, literal, trail, after, by rw [htext]; simp, ?_⟩
  refine ⟨by rw [hspan]; simp, by rw [hvalue]; simp, hslice, hslice ▸ hsolid, ?_⟩
  have hdrop : dropBytes value.stop text = trail ++ after := by
    rw [hvalue, htext', ← byteLength_append, ← List.append_assoc, dropBytes_byteLength, hback]
  rw [← hdrop]
  exact hend

/-- The hits of a rule follow one another. -/
theorem hits_apart (rule : Rule) (claims : List Span) (text : List Char) :
    (rule.hits claims text).Pairwise fun a b => a.span.stop ≤ b.span.start := by
  rw [hits_eq, List.pairwise_filterMap]
  refine (rule.program.occurrences_apart text).imp fun {a b} hab x hx y hy => ?_
  obtain ⟨_, -, rfl, -⟩ := hitOf?_eq_some_iff.1 hx
  obtain ⟨_, -, rfl, -⟩ := hitOf?_eq_some_iff.1 hy
  exact hab

end Rule

/-- What a rule puts in place of the value of a hit: nothing new where the match
touches a comment or no literal of the value has a token. -/
def RuleSet.change? (set : RuleSet) (rule : Rule) (text : List Char) (hit : Hit) :
    Option (List Char) :=
  let substitution := Substitution.ofValue set.table rule hit.literal
  if hit.span.overlapsAny (Comment.spans text) || substitution.replaced = 0 then none
  else some substitution.text

/-- The edits of a rule. -/
def RuleSet.edits (set : RuleSet) (rule : Rule) (text : List Char) (hits : List Hit) : List Edit :=
  hits.filterMap fun hit => (set.change? rule text hit).map fun new => ⟨hit.value, new⟩

/-- The changes of a rule are those of its hits outside comments that replace something. -/
theorem RuleSet.edits_eq_map_filter (set : RuleSet) (rule : Rule) (text : List Char)
    (hits : List Hit) :
    ((((hits.filter (!·.span.overlapsAny (Comment.spans text))).map fun hit =>
      (hit, Substitution.ofValue set.table rule hit.literal)).filter (·.2.replaced ≠ 0)).map
        fun (hit, s) => (⟨hit.value, s.text⟩ : Edit)) = set.edits rule text hits := by
  induction hits with
  | nil => rfl
  | cons hit hits ih =>
    rw [RuleSet.edits, List.filterMap_cons, ← RuleSet.edits, ← ih, RuleSet.change?]
    by_cases hc : hit.span.overlapsAny (Comment.spans text)
    · simp [hc]
    · by_cases hr : (Substitution.ofValue set.table rule hit.literal).replaced = 0 <;>
        simp [hc, hr]

/-- A rule splices its changes into the text and moves the claims along. -/
theorem RuleSet.step_eq (set : RuleSet) (rule : Rule) (draft : Draft) :
    (set.step rule draft).1 =
      let hits := rule.hits draft.claims draft.text
      let edits := set.edits rule draft.text hits
      { text := splice 0 edits draft.text
        claims := (draft.claims ++ hits.map (·.span)).map (Span.relocate edits) } := by
  rw [RuleSet.step]
  simp only [edits_eq_map_filter]

/-! ### Layouts -/

/-- A match that a rule has claimed. -/
structure Site where
  /-- The number of the rule. -/
  owner : Nat
  /-- The match up to its value. -/
  lead : List Char
  value : List Char
  /-- The match after its value. -/
  trail : List Char
  /-- What the rule puts in place of the value. -/
  change : Option (List Char)

namespace Site

/-- What stands in place of the value at a stage. -/
def valueAt (stage : Nat) (site : Site) : List Char :=
  if site.owner < stage then site.change.getD site.value else site.value

/-- The text of the site at a stage. -/
def textAt (stage : Nat) (site : Site) : List Char :=
  site.lead ++ (site.valueAt stage ++ site.trail)

/-- The span of the value when the site starts at `start`; only until the owner
has had its turn. -/
def valueSpan (start : Nat) (site : Site) : Span :=
  ⟨start + byteLength site.lead, start + byteLength site.lead + byteLength site.value⟩

/-- The hit that the site was claimed by, when it lies at a span. -/
def hitAt (span : Span) (site : Site) : Hit :=
  ⟨span, site.valueSpan span.start, site.value⟩

/-- The edit that the owner makes. -/
def edit? (start : Nat) (site : Site) : Option Edit :=
  site.change.map fun new => ⟨site.valueSpan start, new⟩

theorem valueAt_of_le {site : Site} {stage : Nat} (h : stage ≤ site.owner) :
    site.valueAt stage = site.value := by
  rw [valueAt, if_neg (by omega)]

theorem textAt_of_le {site : Site} {stage : Nat} (h : stage ≤ site.owner) :
    site.textAt stage = site.lead ++ (site.value ++ site.trail) := by
  rw [textAt, valueAt_of_le h]

theorem textAt_owner_succ (site : Site) :
    site.textAt (site.owner + 1) = site.lead ++ (site.change.getD site.value ++ site.trail) := by
  rw [textAt, valueAt, if_pos (by omega)]

/-- Only the turn of its owner changes a site. -/
theorem textAt_succ_of_ne {site : Site} {stage : Nat} (h : site.owner ≠ stage) :
    site.textAt (stage + 1) = site.textAt stage := by
  rw [textAt, textAt, valueAt, valueAt]
  by_cases ho : site.owner < stage
  · rw [if_pos ho, if_pos (by omega)]
  · rw [if_neg ho, if_neg (by omega)]

end Site

/-- Gaps and sites in turn. -/
inductive Layout
  | last (gap : List Char)
  | site (gap : List Char) (site : Site) (rest : Layout)

namespace Layout

/-- The text at a stage. -/
def textAt (stage : Nat) : Layout → List Char
  | last gap => gap
  | site gap s rest => gap ++ (s.textAt stage ++ rest.textAt stage)

/-- The sites, in order. -/
def sites : Layout → List Site
  | last _ => []
  | site _ s rest => s :: rest.sites

/-- The sites with their spans at a stage, when the layout starts at an offset. -/
def placedFrom (stage : Nat) : Nat → Layout → List (Span × Site)
  | _, last _ => []
  | offset, site gap s rest =>
    let start := offset + byteLength gap
    let stop := start + byteLength (s.textAt stage)
    (⟨start, stop⟩, s) :: rest.placedFrom stage stop

/-- The edits of the rule whose turn it is, when the layout starts at an offset. -/
def editsFrom (stage : Nat) : Nat → Layout → List Edit
  | _, last _ => []
  | offset, site gap s rest =>
    let start := offset + byteLength gap
    (if s.owner = stage then (s.edit? start).toList else []) ++
      rest.editsFrom stage (start + byteLength (s.textAt stage))

/-- The sites with their spans at a stage. -/
def placedAt (stage : Nat) (layout : Layout) : List (Span × Site) :=
  layout.placedFrom stage 0

variable {stage offset : Nat} {layout : Layout}

theorem map_snd_placedFrom : (layout.placedFrom stage offset).map Prod.snd = layout.sites := by
  induction layout generalizing offset with
  | last gap => rfl
  | site gap s rest ih => simp [placedFrom, sites, ih]

theorem placedFrom_bounds {p : Span × Site} (h : p ∈ layout.placedFrom stage offset) :
    offset ≤ p.1.start ∧ p.1.start ≤ p.1.stop ∧
      p.1.stop ≤ offset + byteLength (layout.textAt stage) := by
  induction layout generalizing offset with
  | last gap => simp [placedFrom] at h
  | site gap s rest ih =>
    simp only [placedFrom, List.mem_cons] at h
    simp only [textAt, byteLength_append]
    rcases h with rfl | h
    · dsimp only
      omega
    · have := ih h
      omega

/-- The sites are ordered and disjoint. -/
theorem placedFrom_apart (stage offset : Nat) (layout : Layout) :
    (layout.placedFrom stage offset).Pairwise fun a b => a.1.stop ≤ b.1.start := by
  induction layout generalizing offset with
  | last gap => exact List.Pairwise.nil
  | site gap s rest ih =>
    exact List.pairwise_cons.2 ⟨fun p hp => (placedFrom_bounds hp).1, ih _⟩

/-- The text around a site. -/
theorem exists_of_mem_placedFrom {p : Span × Site} (h : p ∈ layout.placedFrom stage offset) :
    ∃ a b, layout.textAt stage = a ++ (p.2.textAt stage ++ b) ∧
      p.1 = ⟨offset + byteLength a, offset + byteLength a + byteLength (p.2.textAt stage)⟩ := by
  induction layout generalizing offset with
  | last gap => simp [placedFrom] at h
  | site gap s rest ih =>
    simp only [placedFrom, List.mem_cons] at h
    rcases h with rfl | h
    · exact ⟨gap, rest.textAt stage, rfl, rfl⟩
    · obtain ⟨a, b, hab, hp⟩ := ih h
      refine ⟨gap ++ (s.textAt stage ++ a), b, by simp [textAt, hab], ?_⟩
      rw [hp]
      simp only [byteLength_append]
      congr 1 <;> omega

/-! ### From one stage to the next -/

theorem splice_cons (offset : Nat) (u v new text : List Char) (edits : List Edit) :
    splice offset
        (⟨⟨offset + byteLength u, offset + byteLength u + byteLength v⟩, new⟩ :: edits)
        (u ++ (v ++ text)) =
      u ++ (new ++ splice (offset + byteLength u + byteLength v) edits text) := by
  rw [splice]
  have h1 : offset + byteLength u - offset = byteLength u := by omega
  have h2 : offset + byteLength u + byteLength v - offset = byteLength (u ++ v) := by
    rw [byteLength_append]
    omega
  dsimp only
  rw [h1, h2, takeBytes_byteLength, ← List.append_assoc, dropBytes_byteLength, List.append_assoc]

/-- Splicing the edits of a stage leads to the next stage.  The text `u` stands
between the last edit and the layout. -/
theorem splice_editsFrom (stage offset : Nat) (u : List Char) (layout : Layout) :
    splice offset (layout.editsFrom stage (offset + byteLength u)) (u ++ layout.textAt stage) =
      u ++ layout.textAt (stage + 1) := by
  induction layout generalizing offset u with
  | last gap => rfl
  | site gap s rest ih =>
    by_cases ho : s.owner = stage
    · cases hc : s.change with
      | none =>
        have hs : s.textAt (stage + 1) = s.textAt stage := by
          rw [← ho, s.textAt_owner_succ, hc, Option.getD_none, Site.textAt_of_le le_rfl]
        have := ih offset (u ++ (gap ++ s.textAt stage))
        simpa [editsFrom, textAt, ho, hs, Site.edit?, hc, Nat.add_assoc] using this
      | some new =>
        have hs : s.textAt stage = s.lead ++ (s.value ++ s.trail) :=
          Site.textAt_of_le ho.ge
        have hs' : s.textAt (stage + 1) = s.lead ++ (new ++ s.trail) := by
          rw [← ho, s.textAt_owner_succ, hc, Option.getD_some]
        have hcons := splice_cons offset (u ++ (gap ++ s.lead)) s.value new
          (s.trail ++ rest.textAt stage)
          (rest.editsFrom stage (offset + byteLength u + byteLength gap +
            byteLength (s.textAt stage)))
        have := ih (offset + byteLength (u ++ (gap ++ s.lead)) + byteLength s.value) s.trail
        simp only [byteLength_append, hs, Nat.add_assoc] at hcons this
        simp only [editsFrom, textAt, ho, if_true, Site.edit?, hc, Site.valueSpan, hs, hs',
          Option.map_some, Option.toList_some, List.cons_append, List.nil_append,
          List.append_assoc, byteLength_append, Nat.add_assoc] at hcons this ⊢
        rw [hcons, this]
    · have := ih offset (u ++ (gap ++ s.textAt stage))
      simpa [editsFrom, textAt, ho, Site.textAt_succ_of_ne ho, Nat.add_assoc] using this

/-- Bytes that edits bring in. -/
def gained (edits : List Edit) : Nat :=
  Count.total (edits.map (byteLength ·.text))

/-- Bytes that edits take out. -/
def lost (edits : List Edit) : Nat :=
  Count.total (edits.map (·.span.length))

theorem gained_append (first second : List Edit) :
    gained (first ++ second) = gained first + gained second := by
  rw [gained, List.map_append, Count.total_append, gained, gained]

theorem lost_append (first second : List Edit) :
    lost (first ++ second) = lost first + lost second := by
  rw [lost, List.map_append, Count.total_append, lost, lost]

/-- Only the edits that end at an offset or before it move it. -/
theorem relocate_append {first second : List Edit} {offset : Nat}
    (h1 : ∀ e ∈ first, e.span.stop ≤ offset) (h2 : ∀ e ∈ second, offset < e.span.stop) :
    relocate (first ++ second) offset = offset + gained first - lost first := by
  have hf : (first ++ second).filter (·.span.stop ≤ offset) = first := by
    rw [List.filter_append, List.filter_eq_self.2 (by simpa using h1),
      List.filter_eq_nil_iff.2 (by simpa using h2), List.append_nil]
  rw [relocate, hf, gained, lost]

theorem lt_of_mem_editsFrom {e : Edit} (hv : ∀ s ∈ layout.sites, s.value ≠ [])
    (h : e ∈ layout.editsFrom stage offset) : offset < e.span.stop := by
  induction layout generalizing offset with
  | last gap => simp [editsFrom] at h
  | site gap s rest ih =>
    simp only [editsFrom, List.mem_append] at h
    rcases h with h | h
    · split at h
      · obtain ⟨new, -, rfl⟩ := by simpa [Site.edit?] using h
        have := byteLength_pos (hv s (by simp [sites]))
        simp only [Site.valueSpan]
        omega
      · simp at h
    · have := ih (fun t ht => hv t (by simp [sites, ht])) h
      omega

/-- Relocating the sites leads to where they lie at the next stage.  The edits
`done` were made before the layout begins. -/
theorem relocate_placedFrom (stage offset : Nat) (done : List Edit) (offset' : Nat)
    (hv : ∀ s ∈ layout.sites, s.value ≠ []) (hdone : ∀ e ∈ done, e.span.stop ≤ offset)
    (hoff : offset + gained done = offset' + lost done) :
    (layout.placedFrom stage offset).map
        (fun p => (p.1.relocate (done ++ layout.editsFrom stage offset), p.2)) =
      layout.placedFrom (stage + 1) offset' := by
  induction layout generalizing done offset offset' with
  | last gap => rfl
  | site gap s rest ih =>
    have hrest : ∀ t ∈ rest.sites, t.value ≠ [] := fun t ht => hv t (by simp [sites, ht])
    have hpos := byteLength_pos (hv s (by simp [sites]))
    set start := offset + byteLength gap with hstart
    set stop := start + byteLength (s.textAt stage) with hstop
    set here := if s.owner = stage then (s.edit? start).toList else [] with hhere
    -- The edit of this site, if there is one, ends inside it.
    have hin : ∀ e ∈ here, start < e.span.stop ∧ e.span.stop ≤ stop := by
      intro e he
      rw [hhere] at he
      split at he
      · next ho =>
        obtain ⟨new, -, rfl⟩ := by simpa [Site.edit?] using he
        rw [hstop, Site.textAt_of_le ho.ge]
        simp only [Site.valueSpan, byteLength_append]
        omega
      · simp at he
    have hgrow : byteLength (s.textAt stage) + gained here =
        byteLength (s.textAt (stage + 1)) + lost here := by
      rw [hhere]
      split
      · next ho =>
        rw [Site.textAt_of_le ho.ge, ← ho, s.textAt_owner_succ]
        cases hc : s.change with
        | none => simp [Site.edit?, hc, gained, lost, Count.total]
        | some new =>
          simp [Site.edit?, hc, gained, lost, Count.total, Site.valueSpan, Span.length]
          omega
      · next ho => simp [Site.textAt_succ_of_ne ho, gained, lost, Count.total]
    have hlate : ∀ e ∈ rest.editsFrom stage stop, stop < e.span.stop :=
      fun e he => lt_of_mem_editsFrom hrest he
    have hedits : (site gap s rest).editsFrom stage offset = here ++ rest.editsFrom stage stop := rfl
    have hs : relocate (done ++ (here ++ rest.editsFrom stage stop)) start =
        offset' + byteLength gap := by
      rw [relocate_append]
      · omega
      · intro e he
        have := hdone e he
        omega
      · intro e he
        rcases List.mem_append.1 he with he | he
        · exact (hin e he).1
        · exact lt_of_le_of_lt (by omega) (hlate e he)
    have hearly : ∀ e ∈ done ++ here, e.span.stop ≤ stop := by
      intro e he
      rcases List.mem_append.1 he with he | he
      · have := hdone e he
        omega
      · exact (hin e he).2
    have ht : relocate (done ++ here ++ rest.editsFrom stage stop) stop =
        offset' + byteLength gap + byteLength (s.textAt (stage + 1)) := by
      rw [relocate_append hearly hlate, gained_append, lost_append]
      omega
    have key := ih stop (done ++ here)
      (offset' + byteLength gap + byteLength (s.textAt (stage + 1))) hrest hearly
      (by rw [gained_append, lost_append]; omega)
    rw [placedFrom, placedFrom, List.map_cons, hedits, ← List.append_assoc, key]
    rw [Span.relocate, ← hstart, ← hstop, ht, List.append_assoc, hs]

/-! ### Adding a site -/

/-- A site can be added where its match stands and no other site lies.  Up to the
turn of its owner this changes no text. -/
theorem exists_insert (s : Site) (layout : Layout) : ∀ (offset : Nat) (a b : List Char),
    layout.textAt s.owner = a ++ (s.textAt s.owner ++ b) →
    (∀ p ∈ layout.placedFrom s.owner offset, p.1.stop ≤ offset + byteLength a ∨
      offset + byteLength a + byteLength (s.textAt s.owner) ≤ p.1.start) →
    ∃ wider : Layout,
      (∀ stage ≤ s.owner, wider.textAt stage = layout.textAt stage) ∧
      ∀ stage ≤ s.owner, ∀ offset, ∃ pre span post,
        layout.placedFrom stage offset = pre ++ post ∧
        wider.placedFrom stage offset = pre ++ (span, s) :: post ∧
        (stage = s.owner → span = ⟨offset + byteLength a,
          offset + byteLength a + byteLength (s.textAt s.owner)⟩) := by
  have same : ∀ stage ≤ s.owner, s.textAt stage = s.textAt s.owner := fun stage h => by
    rw [Site.textAt_of_le h, Site.textAt_of_le le_rfl]
  induction layout with
  | last gap =>
    intro offset a b htext _
    refine ⟨site a s (last b), fun stage h => ?_, fun stage h offset => ?_⟩
    · rw [show (last gap).textAt stage = a ++ (s.textAt s.owner ++ b) from htext, textAt, same stage h]
      rfl
    · refine ⟨[], _, [], rfl, rfl, ?_⟩
      rintro rfl
      rfl
  | site gap t rest ih =>
    intro offset a b htext hfree
    rw [textAt] at htext
    rcases hfree _ List.mem_cons_self with hleft | hright
    · -- The other site comes first: go on behind it.
      dsimp only at hleft
      obtain ⟨a', rfl, hrest⟩ := append_eq_append_of_le
        ((List.append_assoc _ _ _).trans htext) (by rw [byteLength_append]; omega)
      simp only [byteLength_append] at hfree
      obtain ⟨wider, hw, hp⟩ := ih (offset + byteLength gap + byteLength (t.textAt s.owner)) a' b
        hrest fun p hp => by
          have := hfree p (List.mem_cons_of_mem _ hp)
          omega
      refine ⟨site gap t wider, fun stage h => ?_, fun stage h offset => ?_⟩
      · rw [textAt, textAt, hw stage h]
      · obtain ⟨pre, span, post, h1, h2, h3⟩ :=
          hp stage h (offset + byteLength gap + byteLength (t.textAt stage))
        refine ⟨(⟨offset + byteLength gap, offset + byteLength gap + byteLength (t.textAt stage)⟩,
          t) :: pre, span, post, ?_, ?_, fun he => ?_⟩
        · rw [placedFrom, h1]
          rfl
        · rw [placedFrom, h2]
          rfl
        · rw [h3 he, he]
          simp only [byteLength_append]
          congr 1 <;> omega
    · -- The gap in front of the other site holds the match.
      dsimp only at hright
      obtain ⟨g, rfl, hb⟩ := append_eq_append_of_le
        ((List.append_assoc a _ b).trans htext.symm) (by rw [byteLength_append]; omega)
      refine ⟨site a s (site g t rest), fun stage h => ?_, fun stage h offset => ?_⟩
      · rw [textAt, textAt, textAt, same stage h]
        simp
      · refine ⟨[], ⟨offset + byteLength a,
          offset + byteLength a + byteLength (s.textAt s.owner)⟩, _, rfl, ?_, fun _ => rfl⟩
        rw [placedFrom, placedFrom, same stage h]
        simp only [byteLength_append, List.nil_append, Nat.add_assoc]

end Layout

end StyleTokens
