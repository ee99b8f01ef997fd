/-
Ways over directories.

* `Disk.Passes` — a way over directories, links to directories and, where it fords, names
  that are missing;
* `Passes.append`, `Passes.split`, `Passes.filter_iff` — ways in parts;
* `Passes.destinationFrom_append` — where a way leads;
* `Passes.walk`, `Passes.of_walk` — walks go over ways on which nothing is missing;
* `Passes.notFound_or` — where something is missing nothing is found behind it;
* `Passes.grown` — a way stays one while no file comes to it.

Design notes: a link is passed only when all of what it leads to is there, since a
directory is never made through a link.
-/
import StyleTokens.Proofs.Disk.Gap

namespace StyleTokens

namespace Disk

open Path (IsIdle)

variable {disk later : Disk} {fording followLast : Bool} {links left middle steps bound : Nat}
  {place other : Place} {piece last : String} {pieces front rest before : List String}
  {found : Found} {places news : Place → Prop}

/-- The way from a place along pieces to another one, with the links that may be followed
there and there.  On it are directories and links to directories; where it fords, a name
that is missing counts as a directory. -/
inductive Passes (disk : Disk) :
    (fording : Bool) → Nat → Place → List String → Nat → Place → Prop
  | here {fording : Bool} {links : Nat} {place : Place} :
    Passes disk fording links place [] links place
  | idle {fording : Bool} {links left : Nat} {place other : Place} {piece : String}
    {rest : List String} (h : IsIdle piece) (next : Passes disk fording links place rest left other) :
    Passes disk fording links place (piece :: rest) left other
  | up {fording : Bool} {links left : Nat} {place other : Place} {rest : List String}
    (next : Passes disk fording links place.dropLast rest left other) :
    Passes disk fording links place (".." :: rest) left other
  | enter {fording : Bool} {links left : Nat} {place other : Place} {piece : String}
    {rest : List String} (name : IsName piece)
    (h : disk.entry? (place ++ [piece]) = some .directory)
    (next : Passes disk fording links (place ++ [piece]) rest left other) :
    Passes disk fording links place (piece :: rest) left other
  | ford {links left : Nat} {place other : Place} {piece : String} {rest : List String}
    (name : IsName piece) (h : disk.entry? (place ++ [piece]) = none)
    (next : Passes disk true links (place ++ [piece]) rest left other) :
    Passes disk true links place (piece :: rest) left other
  | turn {fording : Bool} {links middle left : Nat} {place between other : Place}
    {piece target : String} {rest : List String} (name : IsName piece)
    (h : disk.entry? (place ++ [piece]) = some (.link target))
    (there : Passes disk false links (Path.origin ⟨target⟩ place) (Path.stretches ⟨target⟩)
      middle between)
    (next : Passes disk fording middle between rest left other) :
    Passes disk fording (links + 1) place (piece :: rest) left other

namespace Passes

/-! ### Ways in parts -/

theorem append (h : disk.Passes fording links place front middle other) {last : Place}
    (h' : disk.Passes fording middle other rest left last) :
    disk.Passes fording links place (front ++ rest) left last := by
  induction h with
  | here => exact h'
  | idle hi _ ih => exact .idle hi (ih h')
  | up _ ih => exact .up (ih h')
  | enter hn he _ ih => exact .enter hn he (ih h')
  | ford hn he _ ih => exact .ford hn he (ih h')
  | turn hn he hthere _ _ ih => exact .turn hn he hthere (ih h')

theorem split (h : disk.Passes fording links place (front ++ rest) left other) :
    ∃ middle between, disk.Passes fording links place front middle between ∧
      disk.Passes fording middle between rest left other := by
  induction front generalizing links place with
  | nil => exact ⟨links, place, .here, h⟩
  | cons piece front ih =>
    cases h with
    | idle hi hnext =>
      obtain ⟨middle, between, hfront, hrest⟩ := ih hnext
      exact ⟨middle, between, .idle hi hfront, hrest⟩
    | up hnext =>
      obtain ⟨middle, between, hfront, hrest⟩ := ih hnext
      exact ⟨middle, between, .up hfront, hrest⟩
    | enter hn he hnext =>
      obtain ⟨middle, between, hfront, hrest⟩ := ih hnext
      exact ⟨middle, between, .enter hn he hfront, hrest⟩
    | ford hn he hnext =>
      obtain ⟨middle, between, hfront, hrest⟩ := ih hnext
      exact ⟨middle, between, .ford hn he hfront, hrest⟩
    | turn hn he hthere hnext =>
      obtain ⟨middle, between, hfront, hrest⟩ := ih hnext
      exact ⟨middle, between, .turn hn he hthere hfront, hrest⟩

/-- Idle pieces do not matter. -/
theorem filter_iff :
    disk.Passes fording links place (pieces.filter fun piece => ¬ IsIdle piece) left other ↔
      disk.Passes fording links place pieces left other := by
  induction pieces generalizing links place with
  | nil => rfl
  | cons piece rest ih =>
    by_cases hi : IsIdle piece
    · rw [List.filter_cons, if_neg (by simpa using hi), ih]
      refine ⟨.idle hi, fun h => ?_⟩
      cases h with
      | idle _ hnext => exact hnext
      | up _ => exact absurd hi (by decide)
      | enter hn _ _ | ford hn _ _ | turn hn _ _ _ => exact absurd hi hn.not_idle
    · rw [List.filter_cons, if_pos (by simpa using hi)]
      constructor
      · intro h
        cases h with
        | idle hi' _ => exact absurd hi' hi
        | up hnext => exact .up (ih.1 hnext)
        | enter hn he hnext => exact .enter hn he (ih.1 hnext)
        | ford hn he hnext => exact .ford hn he (ih.1 hnext)
        | turn hn he hthere hnext => exact .turn hn he hthere (ih.1 hnext)
      · intro h
        cases h with
        | idle hi' _ => exact absurd hi' hi
        | up hnext => exact .up (ih.2 hnext)
        | enter hn he hnext => exact .enter hn he (ih.2 hnext)
        | ford hn he hnext => exact .ford hn he (ih.2 hnext)
        | turn hn he hthere hnext => exact .turn hn he hthere (ih.2 hnext)

/-- The last step of a way that fords: it could be made without fording, or something is
missing there. -/
theorem single_cases (hi : ¬ IsIdle last) (h : disk.Passes true links place [last] left other) :
    disk.Passes false links place [last] left other ∨
      IsName last ∧ disk.entry? (place ++ [last]) = none ∧ left = links ∧
        other = place ++ [last] := by
  cases h with
  | idle hi' _ => exact absurd hi' hi
  | up hnext =>
    cases hnext
    exact Or.inl (.up .here)
  | enter hn he hnext =>
    cases hnext
    exact Or.inl (.enter hn he .here)
  | ford hn he hnext =>
    cases hnext
    exact Or.inr ⟨hn, he, rfl, rfl⟩
  | turn hn he hthere hnext =>
    cases hnext
    exact Or.inl (.turn hn he hthere .here)

/-! ### Where a way leads -/

/-- What comes behind a way starts where it leads. -/
theorem destinationFrom_append (h : disk.Passes fording links place pieces left other)
    (rest : List String) :
    disk.destinationFrom links place (pieces ++ rest) = disk.destinationFrom left other rest := by
  induction h generalizing rest with
  | here => rfl
  | idle hi _ ih => rw [List.cons_append, destinationFrom_idle hi, ih]
  | up _ ih => rw [List.cons_append, destinationFrom_up, ih]
  | enter hn he _ ih | ford hn he _ ih =>
    rw [List.cons_append, destinationFrom_name hn.not_idle hn.ne_up (by rw [link?, he]), ih]
  | turn hn he _ _ ihthere ih =>
    rw [List.cons_append,
      destinationFrom_link hn.not_idle hn.ne_up (link?_eq_some_iff.2 he), ihthere, ih]

/-- It leads to a directory below directories when nothing is missing. -/
theorem solid (h : disk.Passes false links place pieces left other) (hs : disk.Solid place) :
    disk.Solid other := by
  generalize hf : false = fording at h
  induction h with
  | here => exact hs
  | idle _ _ ih => exact ih hs hf
  | up _ ih => exact ih hs.dropLast hf
  | enter _ he _ ih => exact ih (hs.append he) hf
  | ford _ _ _ _ => cases hf
  | turn _ _ _ _ ihthere ih => exact ih (ihthere (hs.origin _) rfl) hf

/-- **What is found from the end of a way, is found along it.** -/
theorem walk (h : disk.Passes false links place pieces left other)
    (hw : disk.Walk followLast left other rest found) (hr : rest = [] → followLast = true) :
    disk.Walk followLast links place (pieces ++ rest) found := by
  generalize hf : false = fording at h
  induction h generalizing rest with
  | here => exact hw
  | idle hi _ ih => exact .idle hi (ih hw hr hf)
  | up _ ih => exact .up (ih hw hr hf)
  | enter hn he _ ih => exact .enter hn he (ih hw hr hf)
  | ford _ _ _ _ => cases hf
  | turn hn he _ _ ihthere ih =>
    have hmore {before : List String} (h : before ++ rest = []) : followLast = true :=
      hr (List.append_eq_nil_iff.1 h).2
    exact .turn hn he hmore (ihthere (ih hw hr hf) hmore rfl)

/-- So is the directory there. -/
theorem walk_directory (h : disk.Passes false links place pieces left other)
    (hs : disk.Solid place) : disk.Walk true links place pieces (.at other .directory) := by
  have hw := h.walk (.arrive (h.solid hs).here) fun _ => rfl
  rwa [List.append_nil] at hw

/-- **A walk that goes on behind some pieces** has passed there. -/
theorem of_walk (hs : disk.Solid place) (hr : rest ≠ [])
    (h : disk.Walk true links place (front ++ rest) found) :
    ∃ left other, disk.Passes false links place front left other ∧
      disk.Walk true left other rest found := by
  generalize hp : front ++ rest = pieces at h
  induction h generalizing front with
  | arrive _ => exact absurd (List.append_eq_nil_iff.1 hp).2 hr
  | idle hi hnext ih =>
    cases front with
    | nil =>
      obtain rfl : rest = _ := hp
      exact ⟨_, _, .here, .idle hi hnext⟩
    | cons first others =>
      obtain ⟨rfl, rfl⟩ := List.cons.inj hp
      obtain ⟨left, other, hfront, hrest⟩ := ih hs rfl
      exact ⟨left, other, .idle hi hfront, hrest⟩
  | up hnext ih =>
    cases front with
    | nil =>
      obtain rfl : rest = _ := hp
      exact ⟨_, _, .here, .up hnext⟩
    | cons first others =>
      obtain ⟨rfl, rfl⟩ := List.cons.inj hp
      obtain ⟨left, other, hfront, hrest⟩ := ih hs.dropLast rfl
      exact ⟨left, other, .up hfront, hrest⟩
  | enter hn he hnext ih =>
    cases front with
    | nil =>
      obtain rfl : rest = _ := hp
      exact ⟨_, _, .here, .enter hn he hnext⟩
    | cons first others =>
      obtain ⟨rfl, rfl⟩ := List.cons.inj hp
      obtain ⟨left, other, hfront, hrest⟩ := ih (hs.append he) rfl
      exact ⟨left, other, .enter hn he hfront, hrest⟩
  | @turn _ _ _ target _ _ hn he hgoes hnext ih =>
    cases front with
    | nil =>
      obtain rfl : rest = _ := hp
      exact ⟨_, _, .here, .turn hn he hgoes hnext⟩
    | cons first others =>
      obtain ⟨rfl, rfl⟩ := List.cons.inj hp
      obtain ⟨left, other, hall, hrest⟩ := @ih (Path.stretches ⟨target⟩ ++ others) (hs.origin _)
        (List.append_assoc _ _ _)
      obtain ⟨middle, between, hthere, hfront⟩ := hall.split
      exact ⟨left, other, .turn hn he hthere hfront, hrest⟩
  | missing hn he =>
    obtain ⟨rfl, rfl⟩ | ⟨-, rfl⟩ := List.append_eq_singleton_iff.1 hp
    · exact ⟨_, _, .here, .missing hn he⟩
    · exact absurd rfl hr
  | leaf hn he hdir hlink =>
    obtain ⟨rfl, rfl⟩ | ⟨-, rfl⟩ := List.append_eq_singleton_iff.1 hp
    · exact ⟨_, _, .here, .leaf hn he hdir hlink⟩
    · exact absurd rfl hr
  | lastLink hstays _ _ => cases hstays

/-- Who need not ford, may. -/
theorem may_ford (h : disk.Passes false links place pieces left other) :
    disk.Passes true links place pieces left other := by
  generalize hf : false = fording at h
  induction h with
  | here => exact .here
  | idle hi _ ih => exact .idle hi (ih hf)
  | up _ ih => exact .up (ih hf)
  | enter hn he _ ih => exact .enter hn he (ih hf)
  | ford _ _ _ _ => cases hf
  | turn hn he hthere _ _ ih => exact .turn hn he hthere (ih hf)

/-- A link that is followed on the way puts other pieces in front, for which steps enough are
left. -/
theorem follow_turn (followLast : Bool) {piece target : String} (hn : IsName piece)
    (he : disk.entry? (place ++ [piece]) = some (.link target))
    (hb : ∀ other target, disk.entry? other = some (.link target) →
      (Path.stretches ⟨target⟩).length ≤ bound)
    (hr : rest ≠ []) (hsteps : (piece :: rest).length + (links + 1) * bound < steps + 1) :
    disk.follow followLast (steps + 1) (links + 1) place (piece :: rest) =
        disk.follow followLast steps links (Path.origin ⟨target⟩ place)
          (Path.stretches ⟨target⟩ ++ rest) ∧
      (Path.stretches ⟨target⟩ ++ rest).length + links * bound < steps := by
  have hlength := hb _ _ he
  simp only [List.length_cons, Nat.add_mul, Nat.one_mul] at hsteps
  constructor
  · rw [follow_name hn, he]
    simp only [hr, decide_false, Bool.false_and, Bool.false_eq_true, if_false]
  · rw [List.length_append]
    omega

/-- The steps along a way. -/
theorem follow_eq (followLast : Bool) (h : disk.Passes false links place pieces left other)
    (hb : ∀ other target, disk.entry? other = some (.link target) →
      (Path.stretches ⟨target⟩).length ≤ bound)
    (hr : rest ≠ []) (hsteps : (pieces ++ rest).length + links * bound < steps) :
    ∃ fewer, rest.length + left * bound < fewer ∧
      disk.follow followLast steps links place (pieces ++ rest) =
        disk.follow followLast fewer left other rest := by
  generalize hf : false = fording at h
  induction h generalizing rest steps with
  | here => exact ⟨steps, hsteps, rfl⟩
  | idle hi _ ih =>
    obtain ⟨steps, rfl⟩ : ∃ n, steps = n + 1 := ⟨steps - 1, by omega⟩
    rw [List.cons_append, follow_idle hi]
    exact ih hr (by simp only [List.cons_append, List.length_cons] at hsteps; omega) hf
  | up _ ih =>
    obtain ⟨steps, rfl⟩ : ∃ n, steps = n + 1 := ⟨steps - 1, by omega⟩
    rw [List.cons_append, follow_up]
    exact ih hr (by simp only [List.cons_append, List.length_cons] at hsteps; omega) hf
  | enter hn he _ ih =>
    obtain ⟨steps, rfl⟩ : ∃ n, steps = n + 1 := ⟨steps - 1, by omega⟩
    rw [List.cons_append, follow_name hn, he]
    exact ih hr (by simp only [List.cons_append, List.length_cons] at hsteps; omega) hf
  | ford _ _ _ _ => cases hf
  | @turn _ links middle _ place between _ piece target others hn he _ _ ihthere ih =>
    obtain ⟨steps, rfl⟩ : ∃ n, steps = n + 1 := ⟨steps - 1, by omega⟩
    have hmore : others ++ rest ≠ [] := fun h => hr (List.append_eq_nil_iff.1 h).2
    obtain ⟨hturn, hshort⟩ := follow_turn followLast hn he hb hmore hsteps
    obtain ⟨fewer, hfewer, hthere⟩ := ihthere hmore hshort rfl
    rw [List.cons_append, hturn, hthere]
    exact ih hr hfewer hf

/-- **Where nothing is missing there is no need to ford**, and otherwise nothing is found
behind the gap. -/
theorem notFound_or (followLast : Bool) (h : disk.Passes true links place pieces left other)
    (hb : ∀ other target, disk.entry? other = some (.link target) →
      (Path.stretches ⟨target⟩).length ≤ bound)
    (hr : rest ≠ []) (hsteps : (pieces ++ rest).length + links * bound < steps) :
    disk.Passes false links place pieces left other ∨
      disk.follow followLast steps links place (pieces ++ rest) = .error .notFound := by
  generalize hf : true = fording at h
  induction h generalizing steps with
  | here => exact Or.inl .here
  | idle hi _ ih =>
    obtain ⟨steps, rfl⟩ : ∃ n, steps = n + 1 := ⟨steps - 1, by omega⟩
    rw [List.cons_append, follow_idle hi]
    exact (ih (by simp only [List.cons_append, List.length_cons] at hsteps; omega) hf).imp_left
      (.idle hi)
  | up _ ih =>
    obtain ⟨steps, rfl⟩ : ∃ n, steps = n + 1 := ⟨steps - 1, by omega⟩
    rw [List.cons_append, follow_up]
    exact (ih (by simp only [List.cons_append, List.length_cons] at hsteps; omega) hf).imp_left .up
  | enter hn he _ ih =>
    obtain ⟨steps, rfl⟩ : ∃ n, steps = n + 1 := ⟨steps - 1, by omega⟩
    rw [List.cons_append, follow_name hn, he]
    exact (ih (by simp only [List.cons_append, List.length_cons] at hsteps; omega) hf).imp_left
      (.enter hn he)
  | @ford _ _ _ _ _ others hn he _ _ =>
    obtain ⟨steps, rfl⟩ : ∃ n, steps = n + 1 := ⟨steps - 1, by omega⟩
    have hmore : others ++ rest ≠ [] := fun h => hr (List.append_eq_nil_iff.1 h).2
    rw [List.cons_append, follow_name hn, he]
    exact Or.inr (if_neg hmore)
  | @turn _ links middle _ place between _ piece target others hn he hthere _ _ ih =>
    obtain ⟨steps, rfl⟩ : ∃ n, steps = n + 1 := ⟨steps - 1, by omega⟩
    have hmore : others ++ rest ≠ [] := fun h => hr (List.append_eq_nil_iff.1 h).2
    obtain ⟨hturn, hshort⟩ := follow_turn followLast hn he hb hmore hsteps
    obtain ⟨fewer, hfewer, heq⟩ := hthere.follow_eq followLast hb hmore hshort
    rw [List.cons_append, hturn, heq]
    exact (ih hfewer hf).imp_left (.turn hn he hthere)

/-! ### Ways on disks that grow -/

theorem develops (h : disk.Passes false links place pieces left other) (hd : disk.Develops later) :
    later.Passes false links place pieces left other := by
  generalize hf : false = fording at h
  induction h with
  | here => exact .here
  | idle hi _ ih => exact .idle hi (ih hf)
  | up _ ih => exact .up (ih hf)
  | enter hn he _ ih => exact .enter hn (hd.directory he) (ih hf)
  | ford _ _ _ _ => cases hf
  | turn hn he _ _ ihthere ih => exact .turn hn (hd.link he) (ihthere rfl) (ih hf)

/-- **A way stays one** while no file comes to it. -/
theorem grown (h : disk.Passes fording links place pieces left other)
    (hg : disk.Grown later places news)
    (hspared : ∀ front rest, pieces = front ++ rest → ∀ target,
      disk.destinationFrom links place front = some target → ¬ places target) :
    later.Passes fording links place pieces left other := by
  induction h with
  | here => exact .here
  | idle hi _ ih =>
    refine .idle hi (ih fun front rest heq target hd => ?_)
    exact hspared (_ :: front) rest (by rw [heq, List.cons_append]) target
      ((destinationFrom_idle hi).trans hd)
  | up _ ih =>
    refine .up (ih fun front rest heq target hd => ?_)
    exact hspared (_ :: front) rest (by rw [heq, List.cons_append]) target
      (destinationFrom_up.trans hd)
  | enter hn he _ ih =>
    refine .enter hn (hg.directory he) (ih fun front rest heq target hd => ?_)
    exact hspared (_ :: front) rest (by rw [heq, List.cons_append]) target
      ((destinationFrom_name hn.not_idle hn.ne_up (by rw [link?, he])).trans hd)
  | @ford _ _ place _ piece others hn he _ ih =>
    have hnext := ih fun front rest heq target hd => hspared (piece :: front) rest
      (by rw [heq, List.cons_append]) target
      ((destinationFrom_name hn.not_idle hn.ne_up (by rw [link?, he])).trans hd)
    have hplace : ¬ places (place ++ [piece]) := hspared [piece] others rfl _ <| by
      rw [destinationFrom_name hn.not_idle hn.ne_up (by rw [link?, he]), destinationFrom_nil]
    -- nothing is there still, or a directory has come
    rcases hg.directory_of_none he hplace with hnone | hdir
    · exact .ford hn hnone hnext
    · exact .enter hn hdir hnext
  | turn hn he hthere _ _ ih =>
    refine .turn hn (hg.link he) (hthere.develops hg.toDevelops)
      (ih fun front rest heq target hd => ?_)
    refine hspared (_ :: front) rest (by rw [heq, List.cons_append]) target ?_
    rw [destinationFrom_link hn.not_idle hn.ne_up (link?_eq_some_iff.2 he),
      hthere.destinationFrom_append, hd]

end Passes

end Disk

end StyleTokens
