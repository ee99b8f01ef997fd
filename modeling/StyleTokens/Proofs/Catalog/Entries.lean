/-
What the entries of a report stand for.

An entry can be written in many ways: below the root or from the top, with blanks around it,
with dots and slashes too many.  What it stands for has one form for each location.

* `Catalog.location` — the parts of what an entry names, seen from the root;
* `entryPath_cases` — an entry stands for a path below the root, or for one that is not there;
* `entryPath_eq_iff` — two entries stand for the same when they name one location;
* `existsUnique_of_mapM` — so that a list of entries stands for each location once;
* `entries_normalised` — all of it, and what that makes of the listing of a report.

Design notes: the root itself may go up, as only the parts are compared.  An entry that is
nothing but slashes names the top of all directories, and stands for the empty path, which is
the root: it has to be left out.
-/
import Mathlib.Data.List.Forall2
import StyleTokens.Proofs.Catalog.Listing
import StyleTokens.Proofs.Path.Relative

namespace StyleTokens

open Path (Lasts Spelled isAbsolute moves stretches)

theorem eq_ok_of_toOption {α ε : Type} {result : Except ε α} {value : α}
    (h : result.toOption = some value) : result = .ok value := by
  cases result with
  | error fault => cases h
  | ok other => exact congrArg Except.ok (Option.some.inj h)

/-- Values are gone through to the end when each of them is. -/
theorem mapM_eq_ok_iff {α β ε : Type} {f : α → Except ε β} {values : List α} {results : List β} :
    values.mapM f = .ok results ↔ List.Forall₂ (fun value result => f value = .ok result) values
      results := by
  induction values generalizing results with
  | nil => cases results <;> simp [pure, Except.pure]
  | cons first values ih =>
    rw [List.mapM_cons]
    cases hfirst : f first with
    | error fault => cases results <;> simp [bind, Except.bind, hfirst]
    | ok result =>
      cases hrest : values.mapM f with
      | error fault =>
        cases results <;> simp [bind, Except.bind, hfirst, ← ih, hrest]
      | ok rest =>
        cases results <;> simp [bind, Except.bind, pure, Except.pure, hfirst, ← ih, hrest]

/-- Each of them leads to one of the results. -/
theorem exists_result_of_mapM {α β ε : Type} {f : α → Except ε β} {values : List α}
    {results : List β} {value : α} (h : values.mapM f = .ok results) (hm : value ∈ values) :
    ∃ result ∈ results, f value = .ok result := by
  have hall := mapM_eq_ok_iff.1 h
  clear h
  induction hall with
  | nil => cases hm
  | cons hfirst _ ih =>
    rcases List.mem_cons.1 hm with rfl | hm
    · exact ⟨_, List.mem_cons_self, hfirst⟩
    · obtain ⟨result, hr, hvalue⟩ := ih hm
      exact ⟨result, List.mem_cons_of_mem _ hr, hvalue⟩

/-- Where values are not gone through to the end, it is for one of them. -/
theorem exists_error_of_mapM {α β ε : Type} {f : α → Except ε β} {values : List α} {fault : ε}
    (h : values.mapM f = .error fault) : ∃ value ∈ values, f value = .error fault := by
  induction values with
  | nil => cases h
  | cons first values ih =>
    rw [List.mapM_cons] at h
    cases hfirst : f first with
    | error cause =>
      rw [hfirst] at h
      obtain rfl : cause = fault := Except.error.inj h
      exact ⟨first, List.mem_cons_self, hfirst⟩
    | ok result =>
      cases hrest : values.mapM f with
      | error cause =>
        rw [hfirst, hrest] at h
        obtain rfl : cause = fault := Except.error.inj h
        obtain ⟨value, hm, hvalue⟩ := ih hrest
        exact ⟨value, List.mem_cons_of_mem _ hm, hvalue⟩
      | ok rest =>
        rw [hfirst, hrest] at h
        cases h

namespace Catalog

variable {catalog : Catalog} {entry other file otherFile : String}

/-- What is left of an entry without the blanks around it. -/
def entryOf (entry : String) : Path :=
  ⟨Text.trimmed entry⟩

/-- The parts of what a path names, seen from the root. -/
def location (catalog : Catalog) (path : Path) : List Part :=
  (catalog.root.under path).parts

/-- **An entry that goes up is refused**, and no other one. -/
theorem entryPath_outcome (catalog : Catalog) (entry : String) :
    (Part.up ∈ (entryOf entry).parts ∧
        catalog.entryPath entry = .error (.invalidArgument (.parentInEntry entry))) ∨
      (Part.up ∉ (entryOf entry).parts ∧ ∃ file, catalog.entryPath entry = .ok file) := by
  unfold entryPath
  dsimp only
  by_cases hup : Part.up ∈ (entryOf entry).parts
  · exact Or.inl ⟨hup, if_pos (by simpa [entryOf] using hup)⟩
  · exact Or.inr ⟨hup, _, if_neg (by simpa [entryOf] using hup)⟩

/-- A list of entries is refused for one of them that goes up. -/
theorem exists_up_of_mapM {entries : List String} {fault : Fault}
    (h : entries.mapM catalog.entryPath = .error fault) :
    ∃ entry ∈ entries, Part.up ∈ (entryOf entry).parts ∧
      fault = .invalidArgument (.parentInEntry entry) := by
  obtain ⟨entry, hm, hentry⟩ := exists_error_of_mapM h
  rcases catalog.entryPath_outcome entry with ⟨hup, herror⟩ | ⟨-, file, hfile⟩
  · exact ⟨entry, hm, hup, Except.error.inj (hentry.symm.trans herror)⟩
  · rw [hentry] at hfile
    cases hfile

theorem up_not_mem_of_entryPath (h : catalog.entryPath entry = .ok file) :
    Part.up ∉ (entryOf entry).parts := by
  rcases catalog.entryPath_outcome entry with ⟨-, herror⟩ | ⟨hparts, -⟩
  · rw [herror] at h
    cases h
  · exact hparts

/-- What an accepted entry stands for is written in plain form: the entry itself, or the way to it
from the root. -/
theorem eq_plain_of_entryPath (h : catalog.entryPath entry = .ok file) :
    file = (if (entryOf entry).isAbsolute then
      (((entryOf entry).relativeTo? catalog.root).filter (·.parts.head? ≠ some .up)).getD
        (entryOf entry) else entryOf entry).plain := by
  have hparts := up_not_mem_of_entryPath h
  unfold entryPath at h
  dsimp only at h
  rw [if_neg (by simpa [entryOf] using hparts)] at h
  rw [← Except.ok.inj h, apply_ite Path.plain]
  rfl

variable (hroot : catalog.root.isAbsolute = true)

include hroot

/-- **What an entry stands for** is a path below the root, if the entry leads there, and else
a path from the top. -/
theorem entryPath_cases (h : catalog.entryPath entry = .ok file) (hlasts : (entryOf entry).Lasts) :
    (isAbsolute ⟨file⟩ = false ∧
        (catalog.root.under (entryOf entry)).moves = catalog.root.moves ++ moves ⟨file⟩) ∨
      (isAbsolute ⟨file⟩ = true ∧ (catalog.root.under (entryOf entry)).moves = moves ⟨file⟩ ∧
        ¬ catalog.root.moves <+: moves ⟨file⟩) := by
  have hparts := up_not_mem_of_entryPath h
  have hfile := eq_plain_of_entryPath h
  generalize entryOf entry = path at *
  by_cases habs : path.isAbsolute = true
  · rw [if_pos habs] at hfile
    rw [Path.under, if_pos habs]
    cases hbelow : (path.relativeTo? catalog.root).filter (·.parts.head? ≠ some .up) with
    | some below =>
      obtain ⟨hrelative, hhead⟩ := Option.filter_eq_some_iff.1 hbelow
      obtain ⟨hrel, hmoves⟩ := Path.moves_of_relativeTo? habs hroot hrelative (by simpa using hhead)
      have hstays : below.Lasts := fun hb => absurd hb (by simp [hrel])
      rw [hbelow] at hfile
      subst hfile
      refine Or.inl ⟨hstays.isAbsolute_plain.trans hrel, ?_⟩
      rw [Option.getD_some, Path.moves_plain, hmoves]
    | none =>
      rw [hbelow] at hfile
      subst hfile
      refine Or.inr ⟨hlasts.isAbsolute_plain.trans habs, (Path.moves_plain path).symm,
        fun hfront => ?_⟩
      rw [Option.getD_none, Path.moves_plain] at hfront
      obtain ⟨below, hrelative, hhead⟩ := Path.exists_relativeTo? habs hroot hparts hfront
      rw [hrelative, Option.filter_some, if_pos (by simpa using hhead)] at hbelow
      cases hbelow
  · rw [if_neg habs] at hfile
    subst hfile
    have hrel : path.isAbsolute = false := Bool.eq_false_iff.2 habs
    refine Or.inl ⟨hlasts.isAbsolute_plain.trans hrel, ?_⟩
    rw [Path.moves_under _ hrel, Path.moves_plain]

theorem isAbsolute_under (path : Path) : (catalog.root.under path).isAbsolute = true := by
  cases habs : path.isAbsolute with
  | true => rwa [Path.under, if_pos habs]
  | false => rw [Path.isAbsolute_under _ habs, hroot]

theorem location_eq_iff {path path' : Path} : catalog.location path = catalog.location path' ↔
    (catalog.root.under path).moves = (catalog.root.under path').moves :=
  Path.parts_eq_iff (isAbsolute_under hroot path) (isAbsolute_under hroot path')

/-- **What an entry stands for is where the entry is.** -/
theorem location_entryPath (h : catalog.entryPath entry = .ok file)
    (hlasts : (entryOf entry).Lasts) :
    catalog.location ⟨file⟩ = catalog.location (entryOf entry) := by
  rw [location_eq_iff hroot]
  rcases entryPath_cases hroot h hlasts with ⟨hrel, hmoves⟩ | ⟨habs, hmoves, -⟩
  · rw [hmoves, Path.moves_under _ hrel]
  · rw [hmoves, Path.under, if_pos habs]

/-- **Two entries stand for the same when they name one location.** -/
theorem entryPath_eq_iff (h : catalog.entryPath entry = .ok file)
    (h' : catalog.entryPath other = .ok otherFile) (hlasts : (entryOf entry).Lasts)
    (hlasts' : (entryOf other).Lasts) :
    file = otherFile ↔ catalog.location (entryOf entry) = catalog.location (entryOf other) := by
  constructor
  · rintro rfl
    rw [← location_entryPath hroot h hlasts, ← location_entryPath hroot h' hlasts']
  · intro heq
    rw [location_eq_iff hroot] at heq
    -- the form tells the file by its moves, and by whether it is below the root
    have hspelled := (spelled_of_entryPath h).text_eq
    have hspelled' := (spelled_of_entryPath h').text_eq
    rcases entryPath_cases hroot h hlasts with ⟨habs, hmoves⟩ | ⟨habs, hmoves, houtside⟩ <;>
      rcases entryPath_cases hroot h' hlasts' with
        ⟨habs', hmoves'⟩ | ⟨habs', hmoves', houtside'⟩ <;>
      rw [hmoves, hmoves'] at heq
    · rw [hspelled, hspelled', habs, habs', List.append_cancel_left heq]
    · exact absurd ⟨_, heq⟩ houtside'
    · exact absurd ⟨_, heq.symm⟩ houtside
    · rw [hspelled, hspelled', habs, habs', heq]

/-- **A list of entries stands for each of their locations once.** -/
theorem existsUnique_of_mapM {entries listed : List String}
    (h : entries.mapM catalog.entryPath = .ok listed)
    (hlasts : ∀ entry ∈ entries, (entryOf entry).Lasts) (place : List Part) :
    (∃ entry ∈ entries, catalog.location (entryOf entry) = place) ↔
      ∃! file, file ∈ listed ∧ catalog.location ⟨file⟩ = place := by
  constructor
  · rintro ⟨entry, hm, rfl⟩
    obtain ⟨file, hfile, hentry⟩ := exists_result_of_mapM h hm
    refine ⟨file, ⟨hfile, location_entryPath hroot hentry (hlasts entry hm)⟩, ?_⟩
    rintro other ⟨hother, hplace⟩
    obtain ⟨entry', hm', hentry'⟩ := exists_of_mem_mapM h hother
    rw [location_entryPath hroot hentry' (hlasts entry' hm')] at hplace
    exact (entryPath_eq_iff hroot hentry' hentry (hlasts entry' hm') (hlasts entry hm)).2 hplace
  · rintro ⟨file, ⟨hfile, rfl⟩, -⟩
    obtain ⟨entry, hm, hentry⟩ := exists_of_mem_mapM h hfile
    exact ⟨entry, hm, (location_entryPath hroot hentry (hlasts entry hm)).symm⟩

end Catalog

/-- **Entries are brought into one form for each location**: what an accepted entry stands for
is where the entry is, has no dots, and is the same for two entries that are at one location.
So a report lists each location once, however often and in whatever way it names it; and
entries that go up are refused. -/
theorem entries_normalised (catalog : Catalog) (hroot : catalog.root.isAbsolute = true) :
    (∀ entry, (Part.up ∈ (Catalog.entryOf entry).parts ∧
        catalog.entryPath entry = .error (.invalidArgument (.parentInEntry entry))) ∨
      (Part.up ∉ (Catalog.entryOf entry).parts ∧ ∃ file, catalog.entryPath entry = .ok file)) ∧
    (∀ entry file, catalog.entryPath entry = .ok file →
      (∀ piece ∈ stretches ⟨file⟩, piece ≠ "." ∧ piece ≠ "..") ∧
      ((Catalog.entryOf entry).Lasts →
        catalog.location ⟨file⟩ = catalog.location (Catalog.entryOf entry) ∧
        ∀ other otherFile, catalog.entryPath other = .ok otherFile →
          (Catalog.entryOf other).Lasts → (file = otherFile ↔
            catalog.location (Catalog.entryOf entry) = catalog.location (Catalog.entryOf other)))) ∧
    ∀ (world : FallibleHost) path text entries, world.Grants →
      world.disk.read (catalog.root.under path) = .ok text.toUTF8 →
      Catalog.written (catalog.root.under path) text = .ok entries →
      (∀ entry ∈ entries, (Catalog.entryOf entry).Lasts) →
      let result := (world.run (catalog.list (.report path)).attempt).1
      (∃ entry ∈ entries, Part.up ∈ (Catalog.entryOf entry).parts ∧
        result = .error (.invalidArgument (.parentInEntry entry))) ∨
      ∃ files, result = .ok files ∧ ∀ place,
        (∃ entry ∈ entries, catalog.location (Catalog.entryOf entry) = place) ↔
          ∃! file, file ∈ files.toList ∧ catalog.location ⟨file⟩ = place := by
  refine ⟨catalog.entryPath_outcome, fun entry file h => ⟨fun piece hp => ?_, fun hlasts =>
    ⟨Catalog.location_entryPath hroot h hlasts, fun other otherFile h' hlasts' =>
      Catalog.entryPath_eq_iff hroot h h' hlasts hlasts'⟩⟩, ?_⟩
  · exact (Catalog.spelled_of_entryPath h).clean hp
  · intro world path text entries hgrants hread hwritten hlasts result
    obtain ⟨present, hpresent, hdisk, hgrants⟩ := hgrants.run_ensurePresent hread
    obtain ⟨after, htext, -⟩ :=
      hgrants.run_readText (hdisk ▸ hread) (fromUTF8?_toUTF8 text)
    have hresult : result = _ := Catalog.run_list_report hpresent (congrArg Prod.fst htext)
    rw [hwritten] at hresult
    replace hresult : result =
      (entries.mapM catalog.entryPath >>= fun listed => pure (Names.ofList listed)) := hresult
    cases hlisted : entries.mapM catalog.entryPath with
    | error fault =>
      obtain ⟨entry, hm, hup, rfl⟩ := Catalog.exists_up_of_mapM hlisted
      rw [hlisted] at hresult
      exact Or.inl ⟨entry, hm, hup, hresult⟩
    | ok listed =>
      rw [hlisted] at hresult
      refine Or.inr ⟨.ofList listed, hresult, fun place => ?_⟩
      simp only [Names.mem_ofList]
      exact Catalog.existsUnique_of_mapM hroot hlisted hlasts place

namespace Sample

/-- A report that names one file in four ways, and another one with the same names. -/
def variants : String :=
  "[\"a/b.css\", \" ./a//b.css/ \", \"/p/a/./b.css\", \"/p//a/b.css/.\", \"/pq/a/b.css\"]"

/-- A project with that report. -/
def reported : FallibleHost where
  host := {
    disk := {
      entries := [(["p"], .directory), (["p", "list.json"], .file variants.toUTF8)]
      here := ["p"] } }

theorem written_variants (path : Path) : Catalog.written path variants =
    .ok ["a/b.css", " ./a//b.css/ ", "/p/a/./b.css", "/p//a/b.css/.", "/pq/a/b.css"] := by
  have hentries : ((Json.read variants).toOption.bind fun document =>
      (document.plain? Json.depthLimit).bind reportEntries?) =
      some ["a/b.css", " ./a//b.css/ ", "/p/a/./b.css", "/p//a/b.css/.", "/pq/a/b.css"] := by
    decide +kernel
  obtain ⟨document, hread, hentries⟩ := Option.bind_eq_some_iff.1 hentries
  obtain ⟨plain, hplain, hentries⟩ := Option.bind_eq_some_iff.1 hentries
  exact Catalog.written_eq_ok (eq_ok_of_toOption hread) hplain hentries

/-- The file is listed once, and so is the other one. -/
theorem variants_listed :
    let catalog : Catalog := { root := ⟨"/p"⟩ }
    let result := (reported.run (catalog.list (.report ⟨"list.json"⟩)).attempt).1
    result.toOption.map (·.toList) = some ["/pq/a/b.css", "a/b.css"] ∧
      ∃ files, result = .ok files ∧ ∃! file, file ∈ files.toList ∧
        catalog.location ⟨file⟩ = catalog.location (Catalog.entryOf " ./a//b.css/ ") := by
  intro catalog result
  have hcomputed : result.toOption.map (·.toList) = some ["/pq/a/b.css", "a/b.css"] := by
    decide +kernel
  have hpath : catalog.root.under ⟨"list.json"⟩ = ⟨"/p/list.json"⟩ := by decide
  have hread : reported.disk.read (catalog.root.under ⟨"list.json"⟩) = .ok variants.toUTF8 := by
    rw [hpath]
    rfl
  have hlasts : ∀ entry ∈ ["a/b.css", " ./a//b.css/ ", "/p/a/./b.css", "/p//a/b.css/.",
      "/pq/a/b.css"], (Catalog.entryOf entry).Lasts := by
    unfold Path.Lasts
    decide +kernel
  have hroot : catalog.root.isAbsolute = true := by decide
  refine ⟨hcomputed, ?_⟩
  rcases (entries_normalised catalog hroot).2.2 reported ⟨"list.json"⟩ variants _ (fun _ _ => rfl)
    hread (written_variants _) hlasts with ⟨entry, -, -, herror⟩ | ⟨files, hfiles, hplaces⟩
  · rw [show result = _ from herror] at hcomputed
    cases hcomputed
  · exact ⟨files, hfiles, (hplaces _).1 ⟨_, by simp, rfl⟩⟩

end Sample

end StyleTokens
