import ElmManifest.Proofs.Manifest.Shapes
import Mathlib.Data.List.Nodup

/-!
# Fields of a manifest

What it takes for an object to be read as a manifest of each kind.  The pass over the entries sees
to it that every declared key is there once at most and has a value that can be read; so the looks
at the single fields that follow find the one value of each key, and a manifest is read exactly if
its fields hold what it declares.

## Main Definitions

* `Field.Holds`, `Field.MayHold` — an object has a field, once, with a certain value; or it does
  not have the field.

## Main Statements

* `Field.scan_eq_ok_iff` — which objects pass the scan.
* `Application.ofEntries_eq_ok_iff`, `Package.ofEntries_eq_ok_iff`,
  `LegacyManifest.ofEntries_eq_ok_iff` — the manifest that an object is read as.
-/

namespace ElmManifest

namespace Field

variable {α : Type}

/-- The field is there, once, and its value is read as the given one. -/
def Holds (f : Field α) (entries : List (String × Json)) (a : α) : Prop :=
  ∃ value, valuesUnder f.key entries = [value] ∧ f.read value = .ok a

/-- The field is there, once, and its value is read as the given one; or it is missing, and there is
none given. -/
def MayHold (f : Field α) (entries : List (String × Json)) : Option α → Prop
  | none => valuesUnder f.key entries = []
  | some a => f.Holds entries a

/-! ## The scan -/

/-- What the scan asks of a field: once it has been seen, it must not be there again. -/
private def Fits (f : Field Unit) (seen : List String) (entries : List (String × Json)) : Prop :=
  (f.key ∈ seen → valuesUnder f.key entries = []) ∧ ∃ held, f.MayHold entries held

private theorem fits_cons_of_ne {f : Field Unit} {key : String} (h : f.key ≠ key)
    (seen : List String) (value : Json) (entries : List (String × Json)) :
    f.Fits seen ((key, value) :: entries) ↔ f.Fits seen entries := by
  have hvalues := valuesUnder_cons_of_ne (Ne.symm h) value entries
  have hheld : ∀ held, f.MayHold ((key, value) :: entries) held ↔ f.MayHold entries held := by
    rintro (_ | _) <;> simp [MayHold, Holds, hvalues]
  simp only [Fits, hvalues, hheld]

private theorem fits_seen_of_ne {f : Field Unit} {key : String} (h : f.key ≠ key)
    (seen : List String) (entries : List (String × Json)) :
    f.Fits (key :: seen) entries ↔ f.Fits seen entries := by
  simp [Fits, h]

/-- A field is met: it must be new, its value must be read, and it must not come again. -/
private theorem fits_cons_self (f : Field Unit) (seen : List String) (value : Json)
    (entries : List (String × Json)) :
    f.Fits seen ((f.key, value) :: entries) ↔
      f.key ∉ seen ∧ f.read value = .ok () ∧ f.Fits (f.key :: seen) entries := by
  unfold Fits
  rw [valuesUnder_cons_self]
  constructor
  · rintro ⟨hnew, held, hheld⟩
    cases held with
    | none =>
      unfold MayHold at hheld
      rw [valuesUnder_cons_self] at hheld
      cases hheld
    | some _ =>
      obtain ⟨other, hother, hread⟩ := hheld
      rw [valuesUnder_cons_self] at hother
      obtain ⟨rfl, hnone⟩ := List.cons.inj hother
      exact ⟨fun hseen => absurd (hnew hseen) (by simp), hread, fun _ => hnone, none, hnone⟩
  · rintro ⟨hnew, hread, hnone, -⟩
    have hnone := hnone (List.mem_cons_self ..)
    refine ⟨fun hseen => absurd hseen hnew, some (), value, ?_, hread⟩
    rw [valuesUnder_cons_self, hnone]

private theorem scan_eq_ok_iff_fits {declared : List (Field Unit)}
    (hkeys : (declared.map Field.key).Nodup) {seen : List String}
    {entries : List (String × Json)} :
    scan declared seen entries = .ok () ↔ ∀ f ∈ declared, f.Fits seen entries := by
  induction entries generalizing seen with
  | nil =>
    refine iff_of_true rfl fun f _ => ?_
    exact ⟨fun _ => rfl, none, rfl⟩
  | cons entry rest ih =>
    obtain ⟨key, value⟩ := entry
    rw [scan]
    cases hfind : declared.find? fun field => field.key == key with
    | none =>
      have hother : ∀ f ∈ declared, f.key ≠ key := by
        simpa using hfind
      rw [ih]
      exact forall₂_congr fun f hf => (fits_cons_of_ne (hother f hf) seen value rest).symm
    | some field =>
      have hmem := List.mem_of_find?_eq_some hfind
      obtain rfl : field.key = key := by simpa using List.find?_some hfind
      have hother : ∀ f ∈ declared, f ≠ field → f.key ≠ field.key := fun f hf hne hkey =>
        hne (List.inj_on_of_nodup_map hkeys hf hmem hkey)
      -- Of the declared fields only the one under this key notices the entry.
      dsimp only
      constructor
      · intro h
        obtain ⟨hnew, hread, hrest⟩ : field.key ∉ seen ∧ field.read value = .ok () ∧
            scan declared (field.key :: seen) rest = .ok () := by
          split at h
          · cases h
          next hnew =>
            obtain ⟨_, hread, hrest⟩ := Except.bind_eq_ok_iff.mp h
            exact ⟨hnew, hread, hrest⟩
        rw [ih] at hrest
        intro f hf
        by_cases hf' : f = field
        · subst hf'
          exact (fits_cons_self f seen value rest).mpr ⟨hnew, hread, hrest f hf⟩
        · have hkey := hother f hf hf'
          rw [fits_cons_of_ne hkey, ← fits_seen_of_ne hkey]
          exact hrest f hf
      · intro h
        obtain ⟨hnew, hread, hfield⟩ := (fits_cons_self field seen value rest).mp (h field hmem)
        have hrest : scan declared (field.key :: seen) rest = .ok () := by
          rw [ih]
          intro f hf
          by_cases hf' : f = field
          · rwa [hf']
          · have hkey := hother f hf hf'
            rw [fits_seen_of_ne hkey, ← fits_cons_of_ne hkey seen value]
            exact h f hf
        rw [if_neg hnew, hread]
        exact hrest

/-- **An object passes the scan** exactly if each declared field is there, once, with a value that
can be read, or is missing.  The order of the entries has no part in this; it decides only which
fault is reported. -/
theorem scan_eq_ok_iff {declared : List (Field Unit)} (hkeys : (declared.map Field.key).Nodup)
    {entries : List (String × Json)} :
    scan declared [] entries = .ok () ↔ ∀ f ∈ declared, ∃ held, f.MayHold entries held := by
  rw [scan_eq_ok_iff_fits hkeys]
  simp [Fits]

/-! ## Single fields -/

theorem mayHold_check_iff {f : Field α} {entries : List (String × Json)} :
    (∃ held, f.check.MayHold entries held) ↔ ∃ held, f.MayHold entries held := by
  constructor
  · rintro ⟨held, hheld⟩
    cases held with
    | none => exact ⟨none, hheld⟩
    | some _ =>
      obtain ⟨value, hvalue, hread⟩ := hheld
      obtain ⟨a, ha, -⟩ := Except.map_eq_ok_iff.mp hread
      exact ⟨some a, value, hvalue, ha⟩
  · rintro ⟨held, hheld⟩
    cases held with
    | none => exact ⟨none, hheld⟩
    | some a =>
      obtain ⟨value, hvalue, hread⟩ := hheld
      exact ⟨some (), value, hvalue, Except.map_eq_ok_iff.mpr ⟨a, hread, rfl⟩⟩

/-- After a scan, the look at an optional field finds what the field holds. -/
theorem find_eq_ok_iff {f : Field α} {entries : List (String × Json)} {held : Option α}
    (h : ∃ held, f.MayHold entries held) : f.find entries = .ok held ↔ f.MayHold entries held := by
  unfold find
  rw [lookup_eq_head?_valuesUnder]
  obtain ⟨_ | a, hheld⟩ := h
  · change valuesUnder f.key entries = [] at hheld
    rw [hheld]
    cases held with
    | none => simp [MayHold, hheld]
    | some _ => simp [MayHold, Holds, hheld]
  · obtain ⟨value, hvalue, hread⟩ := hheld
    rw [hvalue]
    cases held with
    | none => simp [MayHold, hvalue]
    | some _ => simp [MayHold, Holds, hvalue]

/-- After a scan, the look at a required field finds what the field holds. -/
theorem require_eq_ok_iff {f : Field α} {entries : List (String × Json)} {a : α}
    (h : ∃ held, f.MayHold entries held) : f.require entries = .ok a ↔ f.Holds entries a := by
  unfold require
  rw [lookup_eq_head?_valuesUnder]
  obtain ⟨_ | a, hheld⟩ := h
  · change valuesUnder f.key entries = [] at hheld
    simp [Holds, hheld]
  · obtain ⟨value, hvalue, hread⟩ := hheld
    simp [Holds, hvalue]

theorem require_of_holds {f : Field α} {entries : List (String × Json)} {a : α}
    (h : f.Holds entries a) : f.require entries = .ok a :=
  (require_eq_ok_iff ⟨some a, h⟩).mpr h

theorem find_of_mayHold {f : Field α} {entries : List (String × Json)} {held : Option α}
    (h : f.MayHold entries held) : f.find entries = .ok held :=
  (find_eq_ok_iff ⟨held, h⟩).mpr h

/-- A declared field that has passed the scan. -/
theorem exists_mayHold_of_scan {declared : List (Field Unit)}
    (hkeys : (declared.map Field.key).Nodup) {entries : List (String × Json)}
    (h : scan declared [] entries = .ok ()) {f : Field α} (hf : f.check ∈ declared) :
    ∃ held, f.MayHold entries held :=
  mayHold_check_iff.mp ((scan_eq_ok_iff hkeys).mp h f.check hf)

end Field

/-! ## Manifests of each kind -/

namespace Application

theorem keys_nodup : (fields.map Field.key).Nodup := by
  decide

/-- Once the fields hold something, the versions in them are read, one after the other. -/
theorem ofEntries_of_holds {entries : List (String × Json)} {sourceDirectories : List String}
    {elmVersion : String} {dependencies : ExactDependencyTexts}
    {testDependencies : Option ExactDependencyTexts}
    (hdirectories : sourceDirectoriesField.Holds entries sourceDirectories)
    (helm : elmVersionField.Holds entries elmVersion)
    (hdependencies : dependenciesField.Holds entries dependencies)
    (htests : testDependenciesField.MayHold entries testDependencies) :
    ofEntries entries = (do
      let elmVersion ← readVersion "elm-version" elmVersion
      let dependencies ← dependencies.readVersions "dependencies"
      let testDependencies ← (testDependencies.getD .empty).readVersions "test-dependencies"
      return {
        elmVersion, sourceDirectories, dependencies, testDependencies,
        testDirectory := none }) := by
  have hscan : Field.scan fields [] entries = .ok () := by
    apply (Field.scan_eq_ok_iff keys_nodup).mpr
    unfold fields
    simp only [List.forall_mem_cons, Field.mayHold_check_iff]
    exact ⟨⟨some _, hdirectories⟩, ⟨some _, helm⟩, ⟨some _, hdependencies⟩, ⟨_, htests⟩, by simp⟩
  rw [ofEntries, hscan, Field.require_of_holds hdirectories, Field.require_of_holds helm,
    Field.require_of_holds hdependencies, Field.find_of_mayHold htests]
  rfl

/-- **What an object is read as an application for**: its fields, with the versions read. -/
theorem ofEntries_eq_ok_iff {entries : List (String × Json)} {a : Application} :
    ofEntries entries = .ok a ↔ ∃ elmVersion dependencies testDependencies,
      sourceDirectoriesField.Holds entries a.sourceDirectories ∧
      elmVersionField.Holds entries elmVersion ∧
      dependenciesField.Holds entries dependencies ∧
      testDependenciesField.MayHold entries testDependencies ∧
      readVersion "elm-version" elmVersion = .ok a.elmVersion ∧
      dependencies.readVersions "dependencies" = .ok a.dependencies ∧
      (testDependencies.getD .empty).readVersions "test-dependencies" = .ok a.testDependencies ∧
      a.testDirectory = none := by
  constructor
  · intro h
    simp only [ofEntries, Except.bind_eq_ok_iff, Except.pure_eq_ok_iff] at h
    obtain ⟨⟨⟩, hscan, directories, hdirectories, elmVersion, helm, dependencies, hdependencies,
      testDependencies, htests, version, hversion, pins, hpins, testPins, htestPins, rfl⟩ := h
    have held : ∀ {α : Type} {f : Field α}, f.check ∈ fields → ∃ held, f.MayHold entries held :=
      Field.exists_mayHold_of_scan keys_nodup hscan
    rw [Field.require_eq_ok_iff (held (by simp [fields]))] at hdirectories helm hdependencies
    rw [Field.find_eq_ok_iff (held (by simp [fields]))] at htests
    exact ⟨elmVersion, dependencies, testDependencies, hdirectories, helm, hdependencies, htests,
      hversion, hpins, htestPins, rfl⟩
  · rintro ⟨elmVersion, dependencies, testDependencies, hdirectories, helm, hdependencies, htests,
      hversion, hpins, htestPins, hdirectory⟩
    rw [ofEntries_of_holds hdirectories helm hdependencies htests]
    simp only [Except.bind_eq_ok_iff, Except.pure_eq_ok_iff]
    refine ⟨_, hversion, _, hpins, _, htestPins, ?_⟩
    rw [← hdirectory]

end Application

namespace Package

theorem keys_nodup : (fields.map Field.key).Nodup := by
  decide

/-- Once the fields hold something, the name is looked at, and then the version and the constraints
in them are read, one after the other. -/
theorem ofEntries_of_holds {entries : List (String × Json)} {name version elmVersion : String}
    {summary license : Option (Option String)} {exposedModules : Option (List String)}
    {dependencies testDependencies : Option (NameMap String)}
    (hname : nameField.Holds entries name) (hversion : versionField.Holds entries version)
    (hsummary : summaryField.MayHold entries summary)
    (hlicense : licenseField.MayHold entries license)
    (helm : elmVersionField.Holds entries elmVersion)
    (hmodules : exposedModulesField.MayHold entries exposedModules)
    (hdependencies : dependenciesField.MayHold entries dependencies)
    (htests : testDependenciesField.MayHold entries testDependencies) :
    ofEntries entries = (do
      if name = "" then throw .emptyName
      let version ← readVersion "version" version
      let elmVersion ← readConstraint "elm-version" elmVersion
      let dependencies ← readConstraints "dependencies" (dependencies.getD .empty)
      let testDependencies ← readConstraints "test-dependencies" (testDependencies.getD .empty)
      return {
        name, version, summary := summary.join, license := license.join, elmVersion,
        exposedModules := exposedModules.getD [], dependencies, testDependencies }) := by
  have hscan : Field.scan fields [] entries = .ok () := by
    apply (Field.scan_eq_ok_iff keys_nodup).mpr
    unfold fields
    simp only [List.forall_mem_cons, Field.mayHold_check_iff]
    exact ⟨⟨some _, hname⟩, ⟨some _, hversion⟩, ⟨_, hsummary⟩, ⟨_, hlicense⟩, ⟨some _, helm⟩,
      ⟨_, hmodules⟩, ⟨_, hdependencies⟩, ⟨_, htests⟩, by simp⟩
  rw [ofEntries, hscan, Field.require_of_holds hname, Field.require_of_holds hversion,
    Field.find_of_mayHold hsummary, Field.find_of_mayHold hlicense, Field.require_of_holds helm,
    Field.find_of_mayHold hmodules, Field.find_of_mayHold hdependencies,
    Field.find_of_mayHold htests]
  rfl

/-- **What an object is read as a package for**: its fields, with the versions and constraints
read. -/
theorem ofEntries_eq_ok_iff {entries : List (String × Json)} {p : Package} :
    ofEntries entries = .ok p ↔ ∃ version summary license elmVersion exposedModules dependencies
        testDependencies,
      nameField.Holds entries p.name ∧
      versionField.Holds entries version ∧
      summaryField.MayHold entries summary ∧
      licenseField.MayHold entries license ∧
      elmVersionField.Holds entries elmVersion ∧
      exposedModulesField.MayHold entries exposedModules ∧
      dependenciesField.MayHold entries dependencies ∧
      testDependenciesField.MayHold entries testDependencies ∧
      p.name ≠ "" ∧
      readVersion "version" version = .ok p.version ∧
      readConstraint "elm-version" elmVersion = .ok p.elmVersion ∧
      readConstraints "dependencies" (dependencies.getD .empty) = .ok p.dependencies ∧
      readConstraints "test-dependencies" (testDependencies.getD .empty) =
        .ok p.testDependencies ∧
      p.summary = summary.join ∧ p.license = license.join ∧
      p.exposedModules = exposedModules.getD [] := by
  constructor
  · intro h
    simp only [ofEntries, Except.throw_bind, Except.bind_eq_ok_iff, Except.ite_throw_eq_ok_iff,
      Except.pure_eq_ok_iff] at h
    obtain ⟨⟨⟩, hscan, name, hname, version, hversion, summary, hsummary, license, hlicense,
      elmVersion, helm, modules, hmodules, dependencies, hdependencies, tests, htests, hne, _,
      hreadVersion, _, hreadElm, _, hranges, _, htestRanges, rfl⟩ := h
    have held : ∀ {α : Type} {f : Field α}, f.check ∈ fields → ∃ held, f.MayHold entries held :=
      Field.exists_mayHold_of_scan keys_nodup hscan
    rw [Field.require_eq_ok_iff (held (by simp [fields]))] at hname hversion helm
    rw [Field.find_eq_ok_iff (held (by simp [fields]))] at hsummary hlicense hmodules
    rw [Field.find_eq_ok_iff (held (by simp [fields]))] at hdependencies htests
    exact ⟨version, summary, license, elmVersion, modules, dependencies, tests, hname, hversion,
      hsummary, hlicense, helm, hmodules, hdependencies, htests, hne, hreadVersion, hreadElm,
      hranges, htestRanges, rfl, rfl, rfl⟩
  · rintro ⟨version, summary, license, elmVersion, modules, dependencies, tests, hname, hversion,
      hsummary, hlicense, helm, hmodules, hdependencies, htests, hne, hreadVersion, hreadElm,
      hranges, htestRanges, hsummary', hlicense', hmodules'⟩
    rw [ofEntries_of_holds hname hversion hsummary hlicense helm hmodules hdependencies htests]
    simp only [Except.throw_bind, Except.bind_eq_ok_iff, Except.ite_throw_eq_ok_iff,
      Except.pure_eq_ok_iff]
    refine ⟨hne, _, hreadVersion, _, hreadElm, _, hranges, _, htestRanges, ?_⟩
    rw [← hsummary', ← hlicense', ← hmodules']

end Package

namespace LegacyManifest

theorem keys_nodup : (fields.map Field.key).Nodup := by
  decide

/-- Once the fields hold something, the constraints in them are read, one after the other. -/
theorem ofEntries_of_holds {entries : List (String × Json)} {elmVersion : String}
    {sourceDirectories exposedModules : Option (List String)}
    {dependencies : Option (NameMap String)} (helm : elmVersionField.Holds entries elmVersion)
    (hdirectories : sourceDirectoriesField.MayHold entries sourceDirectories)
    (hmodules : exposedModulesField.MayHold entries exposedModules)
    (hdependencies : dependenciesField.MayHold entries dependencies) :
    ofEntries entries = (do
      let elmVersion ← readConstraint "elm-version" elmVersion
      let dependencies ← readConstraints "dependencies" (dependencies.getD .empty)
      return {
        elmVersion, sourceDirectories := sourceDirectories.getD defaultSourceDirectories,
        exposedModules := exposedModules.getD [], dependencies,
        exactDependencies := .empty }) := by
  have hscan : Field.scan fields [] entries = .ok () := by
    apply (Field.scan_eq_ok_iff keys_nodup).mpr
    unfold fields
    simp only [List.forall_mem_cons, Field.mayHold_check_iff]
    exact ⟨⟨some _, helm⟩, ⟨_, hdirectories⟩, ⟨_, hmodules⟩, ⟨_, hdependencies⟩, by simp⟩
  rw [ofEntries, hscan, Field.require_of_holds helm, Field.find_of_mayHold hdirectories,
    Field.find_of_mayHold hmodules, Field.find_of_mayHold hdependencies]
  rfl

/-- **What an object is read as a legacy manifest for**: its fields, with the constraints read, and
no exact versions. -/
theorem ofEntries_eq_ok_iff {entries : List (String × Json)} {m : LegacyManifest} :
    ofEntries entries = .ok m ↔ ∃ elmVersion sourceDirectories exposedModules dependencies,
      elmVersionField.Holds entries elmVersion ∧
      sourceDirectoriesField.MayHold entries sourceDirectories ∧
      exposedModulesField.MayHold entries exposedModules ∧
      dependenciesField.MayHold entries dependencies ∧
      readConstraint "elm-version" elmVersion = .ok m.elmVersion ∧
      readConstraints "dependencies" (dependencies.getD .empty) = .ok m.dependencies ∧
      m.sourceDirectories = sourceDirectories.getD defaultSourceDirectories ∧
      m.exposedModules = exposedModules.getD [] ∧ m.exactDependencies = .empty := by
  constructor
  · intro h
    simp only [ofEntries, Except.bind_eq_ok_iff, Except.pure_eq_ok_iff] at h
    obtain ⟨⟨⟩, hscan, elmVersion, helm, directories, hdirectories, modules, hmodules,
      dependencies, hdependencies, _, hreadElm, _, hranges, rfl⟩ := h
    have held : ∀ {α : Type} {f : Field α}, f.check ∈ fields → ∃ held, f.MayHold entries held :=
      Field.exists_mayHold_of_scan keys_nodup hscan
    rw [Field.require_eq_ok_iff (held (by simp [fields]))] at helm
    rw [Field.find_eq_ok_iff (held (by simp [fields]))] at hdirectories hmodules hdependencies
    exact ⟨elmVersion, directories, modules, dependencies, helm, hdirectories, hmodules,
      hdependencies, hreadElm, hranges, rfl, rfl, rfl⟩
  · rintro ⟨elmVersion, directories, modules, dependencies, helm, hdirectories, hmodules,
      hdependencies, hreadElm, hranges, hdirectories', hmodules', hexact⟩
    rw [ofEntries_of_holds helm hdirectories hmodules hdependencies]
    simp only [Except.bind_eq_ok_iff, Except.pure_eq_ok_iff]
    refine ⟨_, hreadElm, _, hranges, ?_⟩
    rw [← hdirectories', ← hmodules', ← hexact]

end LegacyManifest

/-! ## Manifests of any kind -/

namespace Manifest

/-- The effective `type` decides what an object is read as. -/
theorem ofEntries_eq_ok_iff {entries : List (String × Json)} {m : Manifest} :
    ofEntries entries = .ok m ↔
      (effectiveValue? "type" entries = some (.string "application") ∧
        ∃ a, Application.ofEntries entries = .ok a ∧ m = .application a) ∨
      (effectiveValue? "type" entries = some (.string "package") ∧
        ∃ p, Package.ofEntries entries = .ok p ∧ m = .package p) := by
  unfold ofEntries
  rw [Json.find?_effective, typeKey]
  cases effectiveValue? "type" entries with
  | none => simp
  | some value =>
    cases value with
    | string kind =>
      by_cases happ : kind = "application"
      · subst happ
        simp [@eq_comm _ m]
      · by_cases hpkg : kind = "package"
        · subst hpkg
          simp [@eq_comm _ m]
        · simp [happ, hpkg]
    | _ => simp

/-- The file name decides whether an object is read in the older layout. -/
theorem decode_of_ofBytes {path : Path} {bytes : ByteArray} {entries : List (String × Json)}
    (h : Json.ofBytes bytes = .ok (.object entries)) : decode path bytes =
      (if isLegacyPath path then
          ((LegacyManifest.ofEntries entries).map .legacy).mapError .schema
        else ofEntries entries).mapError (·.at path) := by
  rw [decode, ofBytes, readJson, h]
  rfl

/-- What the entries of its object are read as decides what a file is decoded as. -/
theorem decode_eq_ok_iff {path : Path} {bytes : ByteArray} {entries : List (String × Json)}
    (h : Json.ofBytes bytes = .ok (.object entries)) {m : Manifest} :
    decode path bytes = .ok m ↔
      if isLegacyPath path then ∃ l, LegacyManifest.ofEntries entries = .ok l ∧ m = .legacy l
      else ofEntries entries = .ok m := by
  rw [decode_of_ofBytes h, Except.mapError_eq_ok_iff]
  split
  · rw [Except.mapError_eq_ok_iff, Except.map_eq_ok_iff]
    simp only [@eq_comm _ m]
  · rfl

theorem exists_entries_of_decode {path : Path} {bytes : ByteArray} {m : Manifest}
    (h : decode path bytes = .ok m) : ∃ entries, Json.ofBytes bytes = .ok (.object entries) := by
  rw [decode, Except.mapError_eq_ok_iff, ofBytes, Except.bind_eq_ok_iff] at h
  obtain ⟨value, hvalue, h⟩ := h
  obtain ⟨entries, hentries, -⟩ := Except.bind_eq_ok_iff.mp h
  rw [readJson, Except.mapError_eq_ok_iff] at hvalue
  rw [Except.mapError_eq_ok_iff] at hentries
  cases value with
  | object found => exact ⟨found, hvalue⟩
  | _ => cases hentries

end Manifest

end ElmManifest
