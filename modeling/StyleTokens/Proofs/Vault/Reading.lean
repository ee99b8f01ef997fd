/-
Manifests that are read as they were written.

* `Manifest.Sized` — a manifest whose sizes 64 bits hold;
* `ofJson_toJson` — the document of a manifest describes that manifest;
* `parse_pretty` — so does its text;
* `run_load` — a manifest on the disk is loaded.
-/
import StyleTokens.Proofs.Json.Decoding
import StyleTokens.Proofs.World.Granting
import StyleTokens.Vault.Basic

namespace StyleTokens

namespace BackupEntry

theorem exact_toJson {entry : BackupEntry} (h : entry.size < Count.bound) : entry.toJson.Exact := by
  obtain ⟨file, backup, size, sha256, pristine⟩ := entry
  cases pristine with
  | none => exact ⟨trivial, trivial, Json.fits_ofNat h, trivial, trivial⟩
  | some path => exact ⟨trivial, trivial, Json.fits_ofNat h, trivial, trivial, trivial⟩

theorem ofJson_toJson {entry : BackupEntry} (h : entry.size < Count.bound) :
    ofJson entry.toJson = .ok entry := by
  obtain ⟨file, backup, size, sha256, pristine⟩ := entry
  have hsize : Json.asNat (.ofNat size) = .ok size := Json.asNat_ofNat h
  cases pristine <;>
    simp [ofJson, toJson, Json.asRecord, Json.single?, Json.Record.required,
      Json.Record.withDefault, Json.Record.given?, List.lookup_cons, Json.asString, Json.asOption,
      hsize]

end BackupEntry

theorem BackupFailure.ofJson_toJson (failure : BackupFailure) :
    ofJson failure.toJson = .ok failure := rfl

namespace Manifest

/-- A manifest whose sizes 64 bits hold. -/
def Sized (manifest : Manifest) : Prop :=
  ∀ entry ∈ manifest.entries, entry.size < Count.bound

theorem exact_toJson {manifest : Manifest} (h : manifest.Sized) : manifest.toJson.Exact := by
  refine ⟨trivial, trivial, trivial, ?_, ?_, trivial⟩
  · exact Json.exactItems_map fun entry he => BackupEntry.exact_toJson (h entry he)
  · exact Json.exactItems_map fun failure _ => ⟨trivial, trivial, trivial⟩

/-- The document of a manifest describes that manifest. -/
theorem ofJson_toJson {manifest : Manifest} (h : manifest.Sized) :
    ofJson manifest.toJson = .ok manifest := by
  have hentries := Json.asList_map fun entry he => BackupEntry.ofJson_toJson (h entry he)
  have hfailures : Json.asList BackupFailure.ofJson
      (.array (manifest.failures.map BackupFailure.toJson)) = .ok manifest.failures :=
    Json.asList_map fun failure _ => failure.ofJson_toJson
  -- the members are there under their names
  show (do
    let entries ← Json.asList BackupEntry.ofJson (.array (manifest.entries.map BackupEntry.toJson))
    let failures ← Json.asList BackupFailure.ofJson
      (.array (manifest.failures.map BackupFailure.toJson))
    return (⟨manifest.schemaVersion, manifest.createdAt, manifest.sourceRoot, entries,
      failures⟩ : Manifest)) = _
  rw [hentries, hfailures]
  rfl

/-- **So does its text.** -/
theorem parse_pretty {manifest : Manifest} (h : manifest.Sized) :
    parse manifest.toJson.pretty = .ok manifest := by
  rw [parse, Json.read_pretty (exact_toJson h)]
  exact congrArg (Except.mapError Fault.json) (ofJson_toJson h)

/-- **A manifest on the disk is loaded**, and nothing else happens. -/
theorem run_load_eq {world : FallibleHost} {manifest : Manifest} {path : Path}
    (hgrants : world.Grants) (h : manifest.Sized)
    (hread : world.disk.read path = .ok manifest.toJson.pretty.toUTF8) :
    world.run (load path).attempt = (.ok manifest, { world with asked := world.asked + 2 }) := by
  have hload := hgrants.run_ensurePresent_readText (fun text => liftM (parse text)) hread
    (fromUTF8?_toUTF8 _)
  rw [load, hload, parse_pretty h]
  rfl

theorem run_load {world : FallibleHost} {manifest : Manifest} {path : Path}
    (hgrants : world.Grants) (h : manifest.Sized)
    (hread : world.disk.read path = .ok manifest.toJson.pretty.toUTF8) :
    ∃ after, world.run (load path).attempt = (.ok manifest, after) ∧
      after.disk = world.disk ∧ after.Grants :=
  ⟨_, run_load_eq hgrants h hread, rfl, hgrants⟩

end Manifest

end StyleTokens
