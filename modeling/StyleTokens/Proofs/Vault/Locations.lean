/-
Where the vault keeps things, seen from the listing.

Each listed file has a place of its own below the directory of the vault, as far as its
names are its own: an absolute path and the relative one with the same names share one.

* `backupPath_alike_iff`, `backupPath_alike_pristinePath_iff`,
  `backupPath_alike_manifestPath_iff` — which locations are one;
* `locations_of_listing` — no location of the vault is listed by a glob.

Design notes: a report may list whatever it likes, the files of the vault included.  The
walk for a glob enters no directory with the name of that of the vault.
-/
import StyleTokens.Proofs.Batch.Backup
import StyleTokens.Proofs.Catalog.Listing

namespace StyleTokens

open Path (Alike IsLabel Spelled labels)

section

variable {world later : FallibleHost} {disk : Disk} {catalog : Catalog} {vault : Vault}
  {files : Names} {file other text : String}

/-! ### Locations that are one -/

namespace Vault

theorem isLabel_manifest : IsLabel "backup-info.json" :=
  ⟨by decide, by decide, by decide⟩

theorem isLabel_pristine : IsLabel ".pristine" :=
  ⟨by decide, by decide, by decide⟩

theorem moves_backupPath (vault : Vault) (file : String) :
    (vault.backupPath file).moves = vault.backupRoot.moves ++ labels ⟨file⟩ :=
  Path.moves_counterpart _ _

theorem isAbsolute_backupPath (vault : Vault) (file : String) :
    (vault.backupPath file).isAbsolute = vault.backupRoot.isAbsolute :=
  Path.isAbsolute_counterpart _ _

theorem moves_pristinePath (vault : Vault) (file : String) :
    (vault.pristinePath file).moves = vault.backupRoot.moves ++ ".pristine" :: labels ⟨file⟩ := by
  rw [pristinePath, Path.moves_counterpart, Path.moves_child _ isLabel_pristine, List.append_assoc,
    List.singleton_append]

theorem isAbsolute_pristinePath (vault : Vault) (file : String) :
    (vault.pristinePath file).isAbsolute = vault.backupRoot.isAbsolute := by
  rw [pristinePath, Path.isAbsolute_counterpart, Path.isAbsolute_child _ isLabel_pristine]

theorem moves_manifestPath (vault : Vault) :
    vault.manifestPath.moves = vault.backupRoot.moves ++ ["backup-info.json"] :=
  Path.moves_child _ isLabel_manifest

theorem isAbsolute_manifestPath (vault : Vault) :
    vault.manifestPath.isAbsolute = vault.backupRoot.isAbsolute :=
  Path.isAbsolute_child _ isLabel_manifest

theorem backupPath_alike_iff :
    Alike (vault.backupPath file) (vault.backupPath other) ↔ labels ⟨file⟩ = labels ⟨other⟩ := by
  simp [Alike, moves_backupPath, isAbsolute_backupPath]

theorem backupPath_alike_pristinePath_iff :
    Alike (vault.backupPath file) (vault.pristinePath other) ↔
      labels ⟨file⟩ = ".pristine" :: labels ⟨other⟩ := by
  simp [Alike, moves_backupPath, isAbsolute_backupPath, moves_pristinePath,
    isAbsolute_pristinePath]

theorem backupPath_alike_manifestPath_iff :
    Alike (vault.backupPath file) vault.manifestPath ↔ labels ⟨file⟩ = ["backup-info.json"] := by
  simp [Alike, moves_backupPath, isAbsolute_backupPath, moves_manifestPath,
    isAbsolute_manifestPath]

end Vault

/-! ### All locations -/

variable {root backups : Path} {top place : Place} {name : String}

/-- A location of the vault is at a directory without links, and below it. -/
theorem destination_of_location {path : Path} {rest : List String}
    (hbackups : disk.destination backups = some place)
    (hl : ∀ below, below ≠ [] → disk.link? (place ++ below) = none)
    (habs : path.isAbsolute = backups.isAbsolute) (hmoves : path.moves = backups.moves ++ rest)
    (hrest : ∀ name ∈ rest, IsLabel name) : disk.destination path = some (place ++ rest) :=
  Disk.destination_below hbackups habs hmoves hrest fun below _ => hl below

theorem isAbsolute_slash (file : String) : Path.isAbsolute ⟨"/" ++ file⟩ = true := by
  rw [Path.isAbsolute, String.toList_append]
  rfl

/-- **Where the vault keeps things.**  Two listed files share a location only when one is the
absolute path with the names of the other.  Beyond that there are the files with the names
of the pristine copies, and the one with the name of the manifest.  When the listing comes
from a glob, no two files share a location, and no location is that of a listed file: given
that the directory of the vault has a name, is not above the root, and has no links in it. -/
theorem locations_of_listing (refresh : Bool) {source : Source} (htree : world.disk.IsTree)
    (h : world.run ((Catalog.skippingBackups { root } backups).list source).attempt =
      (.ok files, later)) :
    let vault : Vault := ⟨root, backups, refresh⟩
    (∀ file ∈ files.toList, ∀ other ∈ files.toList,
      (Alike (vault.backupPath file) (vault.backupPath other) ↔
        file = other ∨ file = "/" ++ other ∨ other = "/" ++ file) ∧
      (Alike (vault.backupPath file) (vault.pristinePath other) ↔
        labels ⟨file⟩ = ".pristine" :: labels ⟨other⟩)) ∧
    (∀ file ∈ files.toList,
      (Alike (vault.backupPath file) vault.manifestPath ↔
        labels ⟨file⟩ = ["backup-info.json"]) ∧
      ¬ Alike (vault.pristinePath file) vault.manifestPath) ∧
    ∀ text, source = .glob text →
      (∀ file ∈ files.toList, ∀ other ∈ files.toList, file ≠ other →
        ¬ Alike (vault.backupPath file) (vault.backupPath other)) ∧
      ∀ top place name, world.disk.find true root = .ok (.at top .directory) →
        backups.fileName? = some name →
        world.disk.destination backups = some (place ++ [name]) → ¬ place ++ [name] <+: top →
        (∀ below, below ≠ [] → world.disk.link? (place ++ [name] ++ below) = none) →
        ∀ file ∈ files.toList, world.disk.Apart (root.under ⟨file⟩) vault.manifestPath ∧
          ∀ other ∈ files.toList,
            world.disk.Apart (root.under ⟨file⟩) (vault.backupPath other) ∧
            world.disk.Apart (root.under ⟨file⟩) (vault.pristinePath other) := by
  intro vault
  have hspelled : ∀ file ∈ files.toList, Spelled file := fun file hf =>
    Catalog.spelled_of_list htree.once htree.named h hf
  have hshared : ∀ file ∈ files.toList, ∀ other ∈ files.toList,
      (Alike (vault.backupPath file) (vault.backupPath other) ↔
        file = other ∨ file = "/" ++ other ∨ other = "/" ++ file) :=
    fun file hf other ho => vault.backupPath_alike_iff.trans
      ((hspelled file hf).labels_eq_iff (hspelled other ho))
  refine ⟨fun file hf other ho => ⟨hshared file hf other ho,
    vault.backupPath_alike_pristinePath_iff⟩, fun file hf =>
      ⟨vault.backupPath_alike_manifestPath_iff, ?pristine⟩, ?glob⟩
  case pristine =>
    rintro ⟨-, hmoves⟩
    rw [vault.moves_pristinePath, vault.moves_manifestPath, List.append_cancel_left_eq] at hmoves
    exact absurd (List.cons.inj hmoves).1 (by decide)
  case glob =>
    rintro text rfl
    have hroot : (Catalog.skippingBackups { root } backups).root = root :=
      Catalog.root_skippingBackups _ _
    refine ⟨fun file hf other ho hne hshares => ?_, ?_⟩
    · -- a glob lists no absolute path
      have hrelative : ∀ file ∈ files.toList, Path.isAbsolute ⟨file⟩ = false := fun _ hf =>
        Catalog.isAbsolute_of_listGlob htree h hf
      rcases (hshared file hf other ho).1 hshares with rfl | rfl | rfl
      · exact hne rfl
      · exact absurd (isAbsolute_slash other) (by rw [hrelative _ hf]; decide)
      · exact absurd (isAbsolute_slash file) (by rw [hrelative _ ho]; decide)
    · intro top place name htop hname hbackups habove hl file hf
      have htop : world.disk.find true (Catalog.skippingBackups { root } backups).root =
          .ok (.at top .directory) := by
        rw [hroot]
        exact htop
      obtain ⟨names, data, rfl, hfile, hhides, hnames⟩ := Catalog.exists_names htree htop h hf
      have hsource := Disk.destination_of_file htree.rooted htop hfile hnames
      rw [hroot] at hsource
      have hlocation : ∀ {path : Path} {rest : List String},
          path.isAbsolute = backups.isAbsolute → path.moves = backups.moves ++ rest →
          (∀ name ∈ rest, IsLabel name) → rest ≠ [] →
          world.disk.Apart (root.under ⟨"/".intercalate names⟩) path := by
        intro path rest habs hmoves hlabels hrest target hd hother
        rw [destination_of_location hbackups hl habs hmoves hlabels] at hother
        rw [hsource] at hd
        exact Catalog.not_below_backups hname habove hrest hhides
          (Option.some.inj (hd.trans hother.symm))
      refine ⟨hlocation vault.isAbsolute_manifestPath vault.moves_manifestPath
        (by simpa using Vault.isLabel_manifest) (by simp), fun other ho => ?_⟩
      have hlabels : ∀ name ∈ labels ⟨other⟩, IsLabel name := fun _ => Path.isLabel_of_mem_labels
      refine ⟨hlocation (vault.isAbsolute_backupPath other) (vault.moves_backupPath other) hlabels ?_,
        hlocation (vault.isAbsolute_pristinePath other) (vault.moves_pristinePath other) ?_ (by simp)⟩
      · -- the root is a directory, so that a file below it has a name
        obtain ⟨names, data, rfl, hfile, -, hnames⟩ := Catalog.exists_names htree htop h ho
        rw [(Path.spelled_intercalate hnames).labels_eq, Path.moves_intercalate hnames]
        rintro rfl
        rw [List.append_nil, Disk.file?, (Disk.find_eq_ok_iff.1 htop).2.entry?_at] at hfile
        cases hfile
      · intro name hn
        rcases List.mem_cons.1 hn with rfl | hn
        · exact Vault.isLabel_pristine
        · exact hlabels name hn

end

/-! ### A project that gets in the way of its vault -/

namespace Sample

/-- The files of the small project, without those of its vault. -/
def catalog : Catalog :=
  .skippingBackups { root := ⟨"/p"⟩ } ⟨"/p/backups"⟩

theorem isTree : disk.IsTree :=
  Disk.isTree_of_entries (by decide) (by decide) (by decide +kernel)

theorem no_links (place : Place) : disk.link? place = none :=
  Disk.link?_eq_none_of_entries (by simp [disk]) place

/-- What the glob for style sheets lists in the small project. -/
theorem listed_by_glob :
    ((Sample.world fun _ => true).run (catalog.list (.glob "**/*.css")).attempt).1.toOption.map
      (·.toList) = some ["a.css", "b.css", "c.css"] := by
  decide +kernel

/-- The vault of the small project keeps off the files that are listed. -/
theorem locations_apart : ∃ files : Names, files.toList = ["a.css", "b.css", "c.css"] ∧
    ∀ file ∈ files.toList, disk.Apart (vault.sourceRoot.under ⟨file⟩) vault.manifestPath ∧
      ∀ other ∈ files.toList,
        disk.Apart (vault.sourceRoot.under ⟨file⟩) (vault.backupPath other) ∧
        disk.Apart (vault.sourceRoot.under ⟨file⟩) (vault.pristinePath other) := by
  have hlisted := listed_by_glob
  rcases hrun : (Sample.world fun _ => true).run (catalog.list (.glob "**/*.css")).attempt with
    ⟨_ | files, later⟩
  · rw [hrun] at hlisted
    cases hlisted
  · rw [hrun] at hlisted
    refine ⟨files, Option.some.inj hlisted, ?_⟩
    exact ((locations_of_listing false isTree hrun).2.2 _ rfl).2 ["p"] ["p"] "backups" rfl rfl rfl
      (by decide) fun _ _ => no_links _

/-- A project with files that are named like those of the vault, and with a report that lists
them, one of them in two ways. -/
def overlapping : FallibleHost where
  host := {
    disk := {
      entries := [
        (["p"], .directory),
        (["p", "a.css"], .file "4".toUTF8),
        (["p", "backups"], .directory),
        (["p", "backups", "a.css"], .file "4".toUTF8),
        (["p", ".pristine"], .directory),
        (["p", ".pristine", "a.css"], .file "4".toUTF8),
        (["p", "backup-info.json"], .file "4".toUTF8),
        (["p", "list.json"], .file
          "[\"a.css\", \"backups/a.css\", \".pristine/a.css\", \"backup-info.json\",
            \"q/a.css\", \"/q/a.css\"]".toUTF8)]
      here := ["p"] } }

/-- **Locations clash when a report lists what it likes**: two listed files share a copy, one
has its copy where the pristine copy of another belongs, one where the manifest belongs, and
one is the copy of another. -/
theorem locations_clash :
    ((overlapping.run (catalog.list (.report ⟨"list.json"⟩)).attempt).1.toOption.map (·.toList) =
      some [".pristine/a.css", "/q/a.css", "a.css", "backup-info.json", "backups/a.css",
        "q/a.css"]) ∧
      vault.backupPath "/q/a.css" = vault.backupPath "q/a.css" ∧
      vault.backupPath ".pristine/a.css" = vault.pristinePath "a.css" ∧
      vault.backupPath "backup-info.json" = vault.manifestPath ∧
      vault.backupPath "a.css" = vault.sourceRoot.under ⟨"backups/a.css"⟩ := by
  decide +kernel

end Sample

end StyleTokens
