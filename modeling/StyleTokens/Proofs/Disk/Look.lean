/-
Disks that look the same.

Someone looks at the files below a directory, at certain places only.  What comes and goes
elsewhere, and what the files hold, makes no difference to what is found.

* `Disk.LooksLike` — the directory is still there, with files at the same of these places;
* `FallibleHost.once_reply` — each place stays there once, whatever is asked but a shell;
* `Disk.EndsInLink` — a path at whose end there is a link; where there is none, the last
  name of the path is that of its place (`getLast?_of_destination`);
* `getLast?_absent` — a file that is created has the last name of its path in any case;
* `Request.Unseen` — requests that bring no file to where someone looks;
* `Obeys.looksLike` — after a script of such requests the disk looks the same.
-/
import StyleTokens.Proofs.Disk.Gain
import StyleTokens.Proofs.Disk.Tree

namespace StyleTokens

variable {α : Type} {disk later last start : Disk} {links : Nat}
  {place top : Place} {pieces : List String} {path root : Path} {data : ByteArray}
  {seen seen' : Place → Prop} {world : FallibleHost}

namespace Disk

/-! ### Places that are there once -/

theorem Once.set (h : disk.Once) (hp : place ≠ []) (entry : Entry) : (disk.set place entry).Once := by
  have hsub : ((disk.entries.filter (·.1 ≠ place)).map (·.1)).Sublist (disk.entries.map (·.1)) :=
    List.filter_sublist.map _
  refine ⟨List.nodup_cons.2 ⟨fun hm => ?_, h.nodup.sublist hsub⟩, fun hm => ?_⟩
  · obtain ⟨other, ho, hplace⟩ := List.mem_map.1 hm
    simpa [hplace] using (List.mem_filter.1 ho).2
  · rcases List.mem_cons.1 hm with he | hm
    · exact hp he.symm
    · exact h.no_root (hsub.mem hm)

theorem Once.write (h : disk.Once) (hw : disk.write path data = .ok later) : later.Once := by
  obtain ⟨found, hf, ⟨rfl, hold⟩ | ⟨rfl, -⟩⟩ := write_cases hw
  · refine h.set (fun hp => ?_) _
    obtain ⟨_, hdir⟩ | ⟨_, hdir⟩ := hold _ _ ((find_eq_ok_iff.1 hf).2.eq_root hp) <;> cases hdir
  · exact h

theorem Once.create (h : disk.Once) (hc : disk.create path data = .ok later) : later.Once := by
  obtain ⟨parent, name, -, rfl⟩ := create_cases hc
  exact h.set (by simp) _

theorem Once.makeDirectory (h : disk.Once) (hm : disk.makeDirectory path = .ok later) :
    later.Once := by
  obtain ⟨parent, name, -, rfl⟩ := makeDirectory_cases hm
  exact h.set (by simp) _

theorem Once.makeDirectoriesFrom (h : disk.Once) (depth : Nat) (path : Path) :
    (Disk.makeDirectoriesFrom depth path disk).2.Once := by
  induction depth generalizing path disk with
  | zero => exact h
  | succ depth ih =>
    have habove := ih h (path.parent?.getD ⟨""⟩)
    unfold Disk.makeDirectoriesFrom
    split
    · exact h
    · split
      · next hmade => exact h.makeDirectory hmade
      · split
        · next heq =>
          rw [heq] at habove
          exact habove
        · next later heq =>
          rw [heq] at habove
          cases hmade : later.makeDirectory path with
          | error cause => exact habove
          | ok last => exact habove.makeDirectory hmade
      · exact h

end Disk

/-- **Each place stays there once**, unless a shell is asked. -/
theorem FallibleHost.once_reply {request : Request} (h : world.disk.Once)
    (hshell : ∀ job, request ≠ .shell job) : (world.reply request).2.disk.Once := by
  rcases world.reply_cases request with ⟨_, _, -, hr⟩ | hr
  · rwa [hr]
  · rw [hr]
    show (world.host.reply request).2.disk.Once
    cases request with
    | makeDirectories path => exact Disk.Once.makeDirectoriesFrom h (path.parts.length + 1) path
    | write path data =>
      rw [Host.reply]
      cases hw : world.host.disk.write path data with
      | error cause => exact h
      | ok later => exact Disk.Once.write h hw
    | create path data =>
      rw [Host.reply]
      cases hc : world.host.disk.create path data with
      | error cause => exact h
      | ok later => exact Disk.Once.create h hc
    | shell job => exact absurd rfl (hshell job)
    | say stream text => cases stream <;> exact h
    | _ => exact h

namespace Disk

/-! ### Looking from a root -/

/-- Whoever looks from a root at certain places sees files at the same of them. -/
structure LooksLike (disk later : Disk) (root : Path) (seen : Place → Prop) : Prop where
  once : disk.Once → later.Once
  root : ∀ top, disk.find true root = .ok (.at top .directory) →
    later.find true root = .ok (.at top .directory)
  isSome_iff : ∀ place, seen place → ((later.file? place).isSome ↔ (disk.file? place).isSome)

namespace LooksLike

theorem refl (disk : Disk) (root : Path) (seen : Place → Prop) : disk.LooksLike disk root seen :=
  ⟨id, fun _ h => h, fun _ _ => Iff.rfl⟩

theorem trans (h : disk.LooksLike later root seen) (h' : later.LooksLike last root seen) :
    disk.LooksLike last root seen :=
  ⟨fun ho => h'.once (h.once ho), fun top hr => h'.root top (h.root top hr),
    fun place hs => (h'.isSome_iff place hs).trans (h.isSome_iff place hs)⟩

theorem mono (h : disk.LooksLike later root seen) (hs : ∀ place, seen' place → seen place) :
    disk.LooksLike later root seen' :=
  ⟨h.once, h.root, fun place hp => h.isSome_iff place (hs place hp)⟩

end LooksLike

theorem Develops.looksLike (h : disk.Develops later) (honce : disk.Once → later.Once)
    (hfiles : ∀ place, seen place → (later.file? place).isSome → (disk.file? place).isSome) :
    disk.LooksLike later root seen := by
  refine ⟨honce, fun top hr => ?_, fun place hs => ⟨hfiles place hs, fun hf => ?_⟩⟩
  · exact h.find hr (h.directory (find_eq_ok_iff.1 hr).2.entry?_at) (by simp)
  · obtain ⟨old, hold⟩ := Option.isSome_iff_exists.1 hf
    obtain ⟨new, hnew⟩ := h.file (file?_eq_some_iff.1 hold)
    rw [file?_eq_some_iff.2 hnew]
    rfl

/-! ### The last name of a path -/

/-- There is a link at the end of a path. -/
def EndsInLink (disk : Disk) (path : Path) : Prop :=
  ∃ front name place, path.moves = front ++ [name] ∧
    disk.destinationFrom linkLimit (path.origin disk.here) front = some place ∧
    (disk.link? (place ++ [name])).isSome

/-- **Where no link is at its end, a path leads to a place with its last name.** -/
theorem getLast?_of_destination {front : List String} {name : String}
    (hmoves : path.moves = front ++ [name]) (hname : Path.IsLabel name)
    (hlink : ¬ disk.EndsInLink path) (hd : disk.destination path = some place) :
    place.getLast? = some name := by
  rw [destination_eq_moves, hmoves] at hd
  rcases disk.destinationFrom_append front linkLimit (path.origin disk.here) with
    ⟨-, hnone⟩ | ⟨left, middle, hmiddle, hrest⟩
  · rw [hnone] at hd
    cases hd
  · have hfree : disk.link? (middle ++ [name]) = none := by
      cases hl : disk.link? (middle ++ [name]) with
      | none => rfl
      | some target => exact absurd ⟨front, name, middle, hmoves, hmiddle, by rw [hl]; rfl⟩ hlink
    rw [hrest, destinationFrom_name hname.not_idle hname.ne_up hfree, destinationFrom_nil] at hd
    obtain rfl := Option.some.inj hd
    exact List.getLast?_concat

/-- What is missing, and was not looked for along a link at the end, has the last name of
the path. -/
theorem Walk.getLast?_absent {parent : Place} {name : String}
    (h : disk.Walk false links place pieces (.absent parent name)) :
    pieces.getLast? = some name := by
  generalize hf : Found.absent parent name = found at h
  have hmore {piece : String} {rest : List String} (h : rest.getLast? = some name) :
      (piece :: rest).getLast? = some name := by
    rw [List.getLast?_cons, h]
    rfl
  induction h with
  | arrive _ => cases hf
  | idle _ _ ih => exact hmore (ih hf)
  | up _ ih => exact hmore (ih hf)
  | missing _ _ =>
    cases hf
    rfl
  | enter _ _ _ ih => exact hmore (ih hf)
  | leaf _ _ _ _ => cases hf
  | lastLink _ _ _ => cases hf
  | @turn _ _ _ target rest _ _ _ hgoes _ ih =>
    -- the link is not the last piece
    have hrest : rest ≠ [] := fun hr => by cases hgoes hr
    refine hmore ?_
    rw [← ih hf, List.getLast?_append_of_ne_nil _ hrest]

theorem getLast?_absent {before : List String} {parent : Place} {name other : String}
    (hs : path.stretches = before ++ [name])
    (hf : disk.find false path = .ok (.absent parent other)) : other = name := by
  have hlast := (find_eq_ok_iff.1 hf).2.getLast?_absent
  rw [hs, List.getLast?_concat] at hlast
  exact (Option.some.inj hlast).symm

end Disk

/-! ### Requests and scripts -/

/-- A request that brings no file to where someone looks, and hands over to no shell. -/
def Request.Unseen (start : Disk) (seen : Place → Prop) : Request → Prop
  | .write path _ => ∀ place, start.destination path = some place → seen place →
    (start.file? place).isSome
  | .create path _ => ∀ (disk : Disk) parent name,
    disk.find false path = .ok (.absent parent name) → ¬ seen (parent ++ [name])
  | .shell _ => False
  | _ => True

theorem Request.Reads.unseen {request : Request} (h : request.Reads) :
    request.Unseen start seen := by
  cases request with
  | write path data => exact h.elim
  | create path data => exact h.elim
  | shell job => exact h.elim
  | _ => trivial

/-- **After such a request the disk looks the same.** -/
theorem FallibleHost.looksLike_reply {request : Request} (world : FallibleHost) (root : Path)
    (hs : request.Adds ∨ world.disk.Solid world.disk.here)
    (h : request.Unseen world.disk seen) :
    world.disk.LooksLike (world.reply request).2.disk root seen := by
  have honce : world.disk.Once → (world.reply request).2.disk.Once := fun ho =>
    FallibleHost.once_reply ho fun job hjob => by rw [hjob] at h; exact h
  rcases world.reply_cases request with ⟨_, _, -, hr⟩ | hr
  · rw [hr]
    exact .refl _ _ _
  · rw [hr] at honce ⊢
    replace honce : world.host.disk.Once → (world.host.reply request).2.disk.Once := honce
    show world.host.disk.LooksLike (world.host.reply request).2.disk root seen
    cases request with
    | makeDirectories path =>
      have hmade := world.host.disk.makeDirectories_spec path
      exact hmade.develops.looksLike honce fun place _ hf => hmade.file?_eq place ▸ hf
    | write path data =>
      rw [Host.reply] at honce ⊢
      cases hw : world.host.disk.write path data with
      | error cause => exact .refl _ _ _
      | ok later =>
        rw [hw] at honce
        have htouched := (Disk.write_spec (hs.resolve_left id) hw).1
        refine htouched.toDevelops.looksLike honce fun place hseen hf => ?_
        by_cases hd : world.host.disk.destination path = some place
        · exact h place hd hseen
        · exact htouched.file?_eq place hd ▸ hf
    | create path data =>
      rw [Host.reply] at honce ⊢
      cases hc : world.host.disk.create path data with
      | error cause => exact .refl _ _ _
      | ok later =>
        rw [hc] at honce
        have htouched := (Disk.create_spec hc).1
        refine htouched.toDevelops.looksLike honce fun place hseen hf => ?_
        obtain ⟨parent, name, hfind⟩ := Disk.vacant_of_create hc
        refine (htouched.file?_eq place fun hd => ?_) ▸ hf
        obtain rfl : parent ++ [name] = place :=
          Option.some.inj ((Disk.destination_of_find hfind (by simp)).symm.trans hd)
        exact h _ parent name hfind hseen
    | shell job => exact h.elim
    | say stream text => cases stream <;> exact .refl _ _ _
    | _ => exact .refl _ _ _

/-- What is not seen at the start is not seen later. -/
theorem Request.Unseen.develops {request : Request} (h : request.Unseen start seen)
    (hdev : start.Develops later) : request.Unseen later seen := by
  cases request with
  | write path data =>
    intro place hd hseen
    obtain ⟨old, hold⟩ := Option.isSome_iff_exists.1
      (h place ((hdev.destination_eq path).symm.trans hd) hseen)
    obtain ⟨new, hnew⟩ := hdev.file (Disk.file?_eq_some_iff.1 hold)
    rw [Disk.file?_eq_some_iff.2 hnew]
    rfl
  | create path data => exact h
  | shell job => exact h.elim
  | _ => trivial

/-- Where files are only created, the start does not matter. -/
theorem Request.Unseen.adds {request : Request} (h : request.Unseen start seen)
    (ha : request.Adds) : request.Unseen later seen := by
  cases request with
  | write path data => exact ha.elim
  | create path data => exact h
  | shell job => exact h.elim
  | _ => trivial

theorem Request.Unseen.within {request : Request} (h : request.Unseen start seen) :
    request.Within start fun _ => True := by
  cases request with
  | shell job => exact h.elim
  | write path data => exact fun _ _ => trivial
  | create path data => exact fun _ _ => trivial
  | _ => trivial

/-- What becomes of a disk while files are written and directories are made: it looks the
same. -/
structure Disk.Unfolds (disk later : Disk) (root : Path) (seen : Place → Prop) : Prop where
  develops : disk.Develops later
  looksLike : disk.LooksLike later root seen

namespace Disk.Unfolds

theorem refl (disk : Disk) (root : Path) (seen : Place → Prop) : disk.Unfolds disk root seen :=
  ⟨.refl disk, .refl disk root seen⟩

theorem step {request : Request} (hs : start.Solid start.here) (h : request.Unseen start seen)
    (hw : start.Unfolds world.disk root seen) :
    start.Unfolds (world.reply request).2.disk root seen := by
  have hs' := hw.develops.solid_here hs
  exact ⟨(Script.Obeys.touched_step hs h.within
      (⟨hw.develops, fun _ hn => absurd trivial hn⟩ : start.Touched world.disk _)).toDevelops,
    hw.looksLike.trans (world.looksLike_reply root (Or.inr hs') (h.develops hw.develops))⟩

end Disk.Unfolds

/-- **After a script of such requests the disk looks the same.** -/
theorem Script.Obeys.unfolds {ends : α → Prop} {script : Script α}
    (h : script.Obeys (Request.Unseen start seen) ends) (hs : start.Solid start.here)
    (hw : start.Unfolds world.disk root seen) :
    start.Unfolds (world.run script).2.disk root seen :=
  h.run (fun state => start.Unfolds state.disk root seen) (fun _ _ hr hstate => hstate.step hs hr) hw

/-- So it does after one that only adds files. -/
theorem Script.Obeys.looksLike {ends : α → Prop} {script : Script α}
    (h : script.Obeys (fun request => request.Adds ∧ request.Unseen start seen) ends)
    (world : FallibleHost) (root : Path) :
    world.disk.LooksLike (world.run script).2.disk root seen :=
  h.run (fun state => world.disk.LooksLike state.disk root seen)
    (fun state _ ⟨hadds, hr⟩ hstate =>
      hstate.trans (state.looksLike_reply root (Or.inl hadds) (hr.adds hadds)))
    (.refl _ _ _)

end StyleTokens
