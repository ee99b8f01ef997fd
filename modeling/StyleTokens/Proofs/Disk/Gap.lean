/-
Ways that break off.

A path that is not found breaks off at a place where nothing is.  It stays so if nothing
comes to that place, or if only a directory comes there and the way breaks off later on.

* `Disk.Grown` — only some files were touched, and things came at some places only;
* `Disk.Lost`, `Disk.Loses` — a way that breaks off, whatever comes;
* `Grown.find_of_error` — a way that ends for another reason ends so later;
* `Grown.read_eq`, `Grown.size_eq` — a path shows what it showed, an error included;
* `write_grown`, `create_grown`, `Furnished.grown` — what comes when files are written and
  directories are made.

Design notes: `Disk.find` walks with bounded steps, and the bound of another disk may be
another one.  The step lemmas are stated for any bounds that are large enough.
-/
import StyleTokens.Proofs.Disk.Change

namespace StyleTokens

namespace Disk

open Path (IsIdle)

variable {disk later last : Disk} {links steps bound : Nat} {place : Place} {piece : String}
  {rest pieces : List String} {path : Path} {data : ByteArray}
  {places places' news news' : Place → Prop}

/-! ### What has come -/

/-- A disk and what has become of it when only the files at some places were touched, and
things came at certain places only. -/
structure Grown (disk later : Disk) (places news : Place → Prop) : Prop extends
    disk.Touched later places where
  comes : ∀ place, disk.entry? place = none → ¬ news place → later.entry? place = none

namespace Grown

theorem refl (disk : Disk) (places news : Place → Prop) : disk.Grown disk places news :=
  ⟨.refl disk places, fun _ h _ => h⟩

theorem mono (h : disk.Grown later places news) (hp : ∀ place, places place → places' place)
    (hn : ∀ place, news place → news' place) : disk.Grown later places' news' :=
  ⟨h.toTouched.mono hp, fun place he hno => h.comes place he fun hnew => hno (hn place hnew)⟩

theorem trans (h : disk.Grown later places news) (h' : later.Grown last places news) :
    disk.Grown last places news :=
  ⟨h.toTouched.trans h'.toTouched, fun place he hno =>
    h'.comes place (h.comes place he hno) hno⟩

/-- What is there stays, unless it is touched. -/
theorem entry?_eq (h : disk.Grown later places news) {entry : Entry}
    (he : disk.entry? place = some entry) (hp : ¬ places place) :
    later.entry? place = some entry := by
  have hdev := h.entry place
  have hfile := h.file?_eq place hp
  rw [file?, file?, he] at hfile
  rw [he] at hdev
  generalize later.entry? place = after at hdev hfile
  cases hdev with
  | keep => rfl
  | rewrite old new =>
    obtain rfl : new = old := by simpa using hfile
    rfl

/-- Where nothing was and no file comes, a directory comes at most. -/
theorem directory_of_none (h : disk.Grown later places news) (he : disk.entry? place = none)
    (hp : ¬ places place) :
    later.entry? place = none ∨ later.entry? place = some .directory := by
  have hdev := h.entry place
  have hfile := h.file?_eq place hp
  rw [file?, file?, he] at hfile
  rw [he] at hdev
  generalize later.entry? place = after at hdev hfile
  cases hdev with
  | keep => exact Or.inl rfl
  | directory => exact Or.inr rfl
  | file data => cases hfile

end Grown

theorem Develops.link (h : disk.Develops later) {target : String}
    (hl : disk.entry? place = some (.link target)) : later.entry? place = some (.link target) := by
  have hsame := h.link?_eq place
  rwa [link?_eq_some_iff.2 hl, link?_eq_some_iff] at hsame

/-- A file stays one. -/
theorem Develops.file (h : disk.Develops later) {old : ByteArray}
    (hf : disk.entry? place = some (.file old)) : ∃ new, later.entry? place = some (.file new) := by
  have hdev := h.entry place
  rw [hf] at hdev
  generalize later.entry? place = after at hdev
  cases hdev with
  | keep => exact ⟨old, rfl⟩
  | rewrite _ new => exact ⟨new, rfl⟩

/-! ### Ways that break off -/

/-- A way along pieces that breaks off, whatever files come at some places and whatever
directories at others. -/
inductive Lost (disk : Disk) (places news : Place → Prop) : Nat → Place → List String → Prop
  | idle {links : Nat} {place : Place} {piece : String} {rest : List String} (h : IsIdle piece)
    (next : Lost disk places news links place rest) :
    Lost disk places news links place (piece :: rest)
  | up {links : Nat} {place : Place} {rest : List String}
    (next : Lost disk places news links place.dropLast rest) :
    Lost disk places news links place (".." :: rest)
  | enter {links : Nat} {place : Place} {piece : String} {rest : List String} (name : IsName piece)
    (h : disk.entry? (place ++ [piece]) = some .directory)
    (next : Lost disk places news links (place ++ [piece]) rest) :
    Lost disk places news links place (piece :: rest)
  | turn {links : Nat} {place : Place} {piece target : String} {rest : List String}
    (name : IsName piece) (h : disk.entry? (place ++ [piece]) = some (.link target))
    (next : Lost disk places news links (Path.origin ⟨target⟩ place)
      (Path.stretches ⟨target⟩ ++ rest)) :
    Lost disk places news (links + 1) place (piece :: rest)
  /-- Nothing is there, and nothing comes. -/
  | gap {links : Nat} {place : Place} {piece : String} {rest : List String} (name : IsName piece)
    (h : disk.entry? (place ++ [piece]) = none) (stays : ¬ news (place ++ [piece])) :
    Lost disk places news links place (piece :: rest)
  /-- Nothing is there, and where a directory comes the way breaks off behind it. -/
  | ford {links : Nat} {place : Place} {piece : String} {rest : List String} (name : IsName piece)
    (h : disk.entry? (place ++ [piece]) = none) (spared : ¬ places (place ++ [piece]))
    (next : Lost disk places news links (place ++ [piece]) rest) :
    Lost disk places news links place (piece :: rest)

/-- A path whose way breaks off, whatever comes. -/
def Loses (disk : Disk) (places news : Place → Prop) (path : Path) : Prop :=
  disk.Lost places news linkLimit (path.origin disk.here) path.stretches

/-- Files that come where something is are of no account. -/
theorem Lost.mono (h : disk.Lost places news links place pieces)
    (hp : ∀ place, disk.entry? place = none → places' place → places place)
    (hn : ∀ place, news' place → news place) : disk.Lost places' news' links place pieces := by
  induction h with
  | idle hi _ ih => exact .idle hi ih
  | up _ ih => exact .up ih
  | enter hname hd _ ih => exact .enter hname hd ih
  | turn hname hl _ ih => exact .turn hname hl ih
  | gap hname he hstays => exact .gap hname he fun hnew => hstays (hn _ hnew)
  | ford hname he hspared _ ih => exact .ford hname he (fun hplace => hspared (hp _ he hplace)) ih

/-- What a walk comes to that finds nothing. -/
inductive NotFound : Except IoCause Found → Prop
  | absent (parent : Place) (name : String) : NotFound (.ok (.absent parent name))
  | notFound : NotFound (.error .notFound)

theorem notFound_of_none (name : IsName piece) (he : disk.entry? (place ++ [piece]) = none) :
    NotFound (disk.follow true (steps + 1) links place (piece :: rest)) := by
  rw [follow_name name, he]
  by_cases hr : rest = []
  · rw [if_pos hr]
    exact .absent _ _
  · rw [if_neg hr]
    exact .notFound

theorem NotFound.cause_eq {cause : IoCause} (h : NotFound (.error cause)) : cause = .notFound := by
  cases h
  rfl

/-- **A way that breaks off is not found later.** -/
theorem Lost.notFound (h : disk.Lost places news links place pieces)
    (hgrown : disk.Grown later places news)
    (hb : ∀ other target, disk.entry? other = some (.link target) →
      (Path.stretches ⟨target⟩).length ≤ bound)
    (hsteps : pieces.length + links * bound < steps) :
    NotFound (later.follow true steps links place pieces) := by
  -- along the way of the old disk, which the new one goes as far as nothing was there
  induction h generalizing steps with
  | idle hi _ ih =>
    obtain ⟨steps, rfl⟩ : ∃ n, steps = n + 1 := ⟨steps - 1, by omega⟩
    rw [follow_idle hi]
    exact ih (by simp only [List.length_cons] at hsteps; omega)
  | up _ ih =>
    obtain ⟨steps, rfl⟩ : ∃ n, steps = n + 1 := ⟨steps - 1, by omega⟩
    rw [follow_up]
    exact ih (by simp only [List.length_cons] at hsteps; omega)
  | enter hname hd _ ih =>
    obtain ⟨steps, rfl⟩ : ∃ n, steps = n + 1 := ⟨steps - 1, by omega⟩
    rw [follow_name hname, hgrown.toDevelops.directory hd]
    exact ih (by simp only [List.length_cons] at hsteps; omega)
  | @turn links place piece target rest hname hl _ ih =>
    obtain ⟨steps, rfl⟩ : ∃ n, steps = n + 1 := ⟨steps - 1, by omega⟩
    rw [follow_name hname, hgrown.toDevelops.link hl]
    simp only [Bool.not_true, Bool.and_false, Bool.false_eq_true, if_false]
    refine ih ?_
    have := hb _ _ hl
    simp only [List.length_cons, List.length_append, Nat.add_mul, Nat.one_mul] at hsteps ⊢
    omega
  | gap hname he hstays =>
    obtain ⟨steps, rfl⟩ : ∃ n, steps = n + 1 := ⟨steps - 1, by omega⟩
    exact notFound_of_none hname (hgrown.comes _ he hstays)
  | ford hname he hspared _ ih =>
    obtain ⟨steps, rfl⟩ : ∃ n, steps = n + 1 := ⟨steps - 1, by omega⟩
    rcases hgrown.directory_of_none he hspared with hnone | hcomes
    · exact notFound_of_none hname hnone
    · rw [follow_name hname, hcomes]
      exact ih (by simp only [List.length_cons] at hsteps; omega)

/-! ### Ways that end for another reason -/

/-- A walk that ends for another reason than that nothing is found ends so later. -/
theorem Develops.follow_of_error (h : disk.Develops later) {bound steps' : Nat} {cause : IoCause}
    (hb : ∀ other target, disk.entry? other = some (.link target) →
      (Path.stretches ⟨target⟩).length ≤ bound)
    (hsteps : pieces.length + links * bound < steps)
    (hsteps' : pieces.length + links * bound < steps')
    (hf : disk.follow true steps links place pieces = .error cause) (hc : cause ≠ .notFound) :
    later.follow true steps' links place pieces = .error cause := by
  -- the two walks go side by side, each with steps of its own
  induction steps generalizing steps' links place pieces with
  | zero => omega
  | succ steps ih =>
    obtain ⟨steps', rfl⟩ : ∃ n, steps' = n + 1 := ⟨steps' - 1, by omega⟩
    match pieces with
    | [] =>
      rw [follow_nil] at hf
      split at hf
      · cases hf
      · cases hf
        exact absurd rfl hc
    | piece :: rest =>
      rw [List.length_cons] at hsteps hsteps'
      rcases piece_cases piece with hp | rfl | hp | ⟨hp, hu, hl⟩
      · rw [follow_idle hp] at hf ⊢
        exact ih (by omega) (by omega) hf
      · rw [follow_up] at hf ⊢
        exact ih (by omega) (by omega) hf
      · cases he : disk.entry? (place ++ [piece]) with
        | none =>
          have hnone : NotFound (disk.follow true (steps + 1) links place (piece :: rest)) :=
            notFound_of_none hp he
          rw [hf] at hnone
          exact absurd hnone.cause_eq hc
        | some entry =>
          -- the entry is of the same kind on both disks
          rw [follow_name hp] at hf ⊢
          rw [he] at hf
          cases entry with
          | directory =>
            rw [h.directory he]
            exact ih (by omega) (by omega) hf
          | link target =>
            rw [h.link he]
            simp only [Bool.not_true, Bool.and_false, Bool.false_eq_true, if_false] at hf ⊢
            cases links with
            | zero => exact hf
            | succ links =>
              have hlength := hb _ _ he
              rw [Nat.add_mul, Nat.one_mul] at hsteps hsteps'
              refine ih ?_ ?_ hf
              · rw [List.length_append]
                omega
              · rw [List.length_append]
                omega
          | file old =>
            obtain ⟨new, hnew⟩ := h.file he
            rw [hnew]
            dsimp only at hf ⊢
            split at hf
            · cases hf
            · next hr =>
              rw [if_neg hr]
              exact hf
          | device device =>
            rw [h.device_iff.2 he]
            exact hf
      · rw [follow_long hp hu hl] at hf ⊢
        exact hf

/-- The steps of both disks suffice for both: they have the same links. -/
theorem Develops.steps_suffice (h : disk.Develops later) (pieces : List String) :
    ∃ bound, (∀ other target, disk.entry? other = some (.link target) →
        (Path.stretches ⟨target⟩).length ≤ bound) ∧
      pieces.length + linkLimit * bound < disk.stepLimit pieces ∧
      pieces.length + linkLimit * bound < later.stepLimit pieces := by
  obtain ⟨bound, hb, hsteps⟩ := Disk.steps_suffice disk pieces
  obtain ⟨bound', hb', hsteps'⟩ := Disk.steps_suffice later pieces
  have hle := Nat.mul_le_mul_left linkLimit (Nat.min_le_left bound bound')
  have hle' := Nat.mul_le_mul_left linkLimit (Nat.min_le_right bound bound')
  exact ⟨min bound bound', fun other target he =>
    Nat.le_min.2 ⟨hb other target he, hb' other target (h.link he)⟩, by omega, by omega⟩

/-- **What is found neither at a place nor missing stays so.** -/
theorem Develops.find_of_error (h : disk.Develops later) {cause : IoCause}
    (hf : disk.find true path = .error cause) (hc : cause ≠ .notFound) :
    later.find true path = .error cause := by
  unfold Disk.find at hf ⊢
  cases hp : piecesOf path with
  | error other =>
    rw [hp] at hf
    exact hf
  | ok pieces =>
    rw [hp] at hf
    obtain ⟨-, rfl⟩ := piecesOf_eq_ok_iff.1 hp
    obtain ⟨bound, hb, hsteps, hsteps'⟩ := h.steps_suffice path.stretches
    show later.follow true _ linkLimit (path.origin later.here) path.stretches = _
    rw [h.here]
    exact h.follow_of_error hb hsteps hsteps' hf hc

/-- A text that can be no path is refused as such. -/
theorem find_of_not_accepts (h : ¬ Accepts path) : later.find true path = disk.find true path := by
  unfold Disk.find
  cases hp : piecesOf path with
  | error cause => rfl
  | ok pieces => exact absurd (piecesOf_eq_ok_iff.1 hp).1 h

namespace Grown

/-- **A path that loses its way is not found later.** -/
theorem entryAt_of_loses (h : disk.Grown later places news) (hl : disk.Loses places news path)
    (ha : Accepts path) : later.entryAt path = .error .notFound := by
  obtain ⟨bound, hb, -, hsteps⟩ := h.toDevelops.steps_suffice path.stretches
  have hnone : NotFound (later.follow true (later.stepLimit path.stretches) linkLimit
      (path.origin disk.here) path.stretches) := Lost.notFound hl h hb hsteps
  have hfind : NotFound (later.find true path) := by
    unfold Disk.find
    rw [piecesOf_eq_ok_iff.2 ⟨ha, rfl⟩]
    rw [← h.here] at hnone
    exact hnone
  rw [entryAt]
  generalize later.find true path = found at hfind
  cases hfind <;> rfl

/-- What is at the end of a path stays, an error included. -/
theorem entryAt_eq (h : disk.Grown later places news) (hs : disk.Solid disk.here)
    (hl : disk.entryAt path = .error .notFound → disk.Loses places news path)
    (hn : ∀ place, disk.destination path = some place → ¬ places place) :
    later.entryAt path = disk.entryAt path := by
  cases hf : disk.find true path with
  | ok found =>
    obtain ⟨ha, hwalk⟩ := find_eq_ok_iff.1 hf
    cases found with
    | absent parent name =>
      have hnone : disk.entryAt path = .error .notFound := by
        rw [entryAt, hf]
        rfl
      rw [hnone, h.entryAt_of_loses (hl hnone) ha]
    | «at» place entry =>
      have hlink : ∀ target, entry ≠ .link target := by
        rintro target rfl
        exact Walk.not_link (hs.origin path) hwalk
      have hdest : disk.destination path = some place :=
        destination_of_find hf fun other target he => by
          cases he
          exact hlink target rfl
      have hkept := h.entry?_eq hwalk.entry?_at (hn place hdest)
      rw [entryAt, entryAt, hf, h.toDevelops.find hf hkept hlink]
      rfl
  | error cause =>
    by_cases hc : cause = .notFound
    · subst hc
      have hnone : disk.entryAt path = .error .notFound := by
        rw [entryAt, hf]
        rfl
      by_cases ha : Accepts path
      · rw [hnone, h.entryAt_of_loses (hl hnone) ha]
      · rw [entryAt, entryAt, find_of_not_accepts ha]
    · rw [entryAt, entryAt, hf, h.toDevelops.find_of_error hf hc]

/-- **A path gives to read what it gave**, an error included. -/
theorem read_eq (h : disk.Grown later places news) (hs : disk.Solid disk.here)
    (hl : disk.entryAt path = .error .notFound → disk.Loses places news path)
    (hn : ∀ place, disk.destination path = some place → ¬ places place) :
    later.read path = disk.read path := by
  rw [Disk.read, Disk.read, h.entryAt_eq hs hl hn]

theorem size_eq (h : disk.Grown later places news) (hs : disk.Solid disk.here)
    (hl : disk.entryAt path = .error .notFound → disk.Loses places news path)
    (hn : ∀ place, disk.destination path = some place → ¬ places place) :
    later.size path = disk.size path := by
  rw [Disk.size, Disk.size, h.entryAt_eq hs hl hn]

end Grown

/-! ### Writing files and making directories -/

theorem Furnished.grown {places news : Place → Prop} (h : disk.Furnished later news) :
    disk.Grown later places news :=
  ⟨h.touched, fun place he hno => by
    rcases h.entry place with hsame | ⟨hnew, -, -⟩
    · exact hsame.trans he
    · exact absurd hnew hno⟩

/-- Where nothing was, nothing comes when something is put elsewhere. -/
theorem entry?_set_of_ne (hp : place ≠ []) (entry : Entry) {other : Place} (hne : other ≠ place)
    (he : disk.entry? other = none) : ( entry? (disk.set place entry) other) = none := by
  rw [entry?_set hp, if_neg hne, he]

/-- What is written comes to where the path leads, and nowhere else. -/
theorem write_grown (hs : disk.Solid disk.here) (h : disk.write path data = .ok later) :
    disk.Grown later (disk.destination path = some ·)
      fun place => disk.destination path = some place ∧ disk.entry? place = none := by
  refine ⟨(write_spec hs h).1, fun other he hno => ?_⟩
  obtain ⟨found, hf, ⟨rfl, hfile⟩ | ⟨rfl, -⟩⟩ := write_cases_of_solid hs h
  · refine entry?_set_of_ne (fun hp => ?_) _ ?_ he
    · obtain ⟨_, hdir⟩ := hfile _ _ ((find_eq_ok_iff.1 hf).2.eq_root hp)
      cases hdir
    · rintro rfl
      refine hno ⟨destination_of_find hf fun place target hat => ?_, he⟩
      obtain ⟨_, hlink⟩ := hfile _ _ hat
      cases hlink
  · exact he

theorem create_grown (h : disk.create path data = .ok later) :
    disk.Grown later (disk.destination path = some ·) (disk.destination path = some ·) := by
  refine ⟨(create_spec h).1, fun other he hno => ?_⟩
  obtain ⟨parent, name, hf, rfl⟩ := create_cases h
  refine entry?_set_of_ne (by simp) _ ?_ he
  rintro rfl
  exact hno (destination_of_find hf (by simp))

end Disk

end StyleTokens
