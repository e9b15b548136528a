import ElmManifest.CommandLine.Run
import ElmManifest.Proofs.FileTree.Agreement
import ElmManifest.Proofs.Success
import Mathlib.Logic.Relation

/-!
# Layers of the configuration

Four layers say something of the configuration of a run: the flags, the configuration file, the
environment, and what holds when nothing is configured.  Each of the two fields has a column of its
own, with an entry for every layer, and its value is the first entry of that column that is given.
Nothing below that entry matters, and nothing in the other column does.

There is no configuration exactly if the file is none, or if it is one but the version of the flags
is none.  The file comes first: what is wrong with it is reported whatever the flags say.

## Main Definitions

* `FirstGiven` — the value of a column.
* `ChangesBelow` — two columns that differ below an entry that is given.
* `ConfigText.Admits`, `ConfigText.BadKey` — the keys of a configuration, and the first one that is
  wrong.
* `Config.Holds`, `Config.Unusable` — what a file says, and why it says nothing.
* `Config.Layer`, `CommandLine.Layered` — what a layer says, and the layers of a run.
* `CommandLine.Unconfigured` — why there is no configuration.

## Main Statements

* `ConfigText.checkKeys_eq_error_iff` — a list of keys is refused for its first bad one.
* `Config.holds_or_unusable` — a file is a configuration, or there is a reason why it is none.
* `CommandLine.configOf_layers` — what becomes of the configuration of a run.
-/

namespace ElmManifest

/-! ## Columns -/

section Columns

variable {α : Type}

/-- A value is the first entry of a column that is given.  In front of it there is nothing. -/
inductive FirstGiven : List (Option α) → α → Prop where
  /-- It is the top entry. -/
  | top {value : α} {rest : List (Option α)} : FirstGiven (some value :: rest) value
  /-- The top entry is left out. -/
  | skip {value : α} {rest : List (Option α)} (h : FirstGiven rest value) :
      FirstGiven (none :: rest) value

/-- The top entry is taken, or else what the entries below it come to. -/
theorem firstGiven_cons_iff {entry : Option α} {rest : List (Option α)} {value : α} :
    FirstGiven (entry :: rest) value ↔
      entry = some value ∨ entry = none ∧ FirstGiven rest value := by
  constructor
  · intro h
    cases h with
    | top => exact .inl rfl
    | skip h => exact .inr ⟨rfl, h⟩
  · rintro (rfl | ⟨rfl, h⟩)
    · exact .top
    · exact .skip h

/-- A column has one first entry at most. -/
theorem FirstGiven.unique {column : List (Option α)} {a b : α} (ha : FirstGiven column a)
    (hb : FirstGiven column b) : a = b := by
  induction ha with
  | top =>
    cases hb
    rfl
  | skip _ ih =>
    cases hb with
    | skip hb => exact ih hb

/-- An entry of a column changes, and one above it is given. -/
inductive ChangesBelow : List (Option α) → List (Option α) → Prop where
  /-- The entries above it and those below it stay as they are. -/
  | intro {above below : List (Option α)} {given : α} {old new : Option α}
      (habove : some given ∈ above) : ChangesBelow (above ++ old :: below) (above ++ new :: below)

/-- A change below an entry that is given does not change the value of the column. -/
theorem FirstGiven.of_changesBelow {column column' : List (Option α)} {value : α}
    (hvalue : FirstGiven column value) (h : ChangesBelow column column') :
    FirstGiven column' value := by
  cases h with
  | @intro above below given old new habove =>
    induction above with
    | nil => cases habove
    | cons entry above ih =>
      rcases firstGiven_cons_iff.mp hvalue with rfl | ⟨rfl, hrest⟩
      · exact .top
      · have hgiven : some given ∈ above := by simpa using habove
        exact .skip (ih hgiven hrest)

theorem FirstGiven.eq_of_changesBelow {column column' : List (Option α)} {value value' : α}
    (hvalue : FirstGiven column value) (hvalue' : FirstGiven column' value')
    (h : Relation.ReflTransGen ChangesBelow column column') : value = value' := by
  refine FirstGiven.unique ?_ hvalue'
  clear hvalue'
  induction h with
  | refl => exact hvalue
  | tail _ hstep ih => exact ih.of_changesBelow hstep

end Columns

/-! ## Keys -/

namespace ConfigText

/-- The lines of a text, whatever their keys are. -/
def lines (text : List Char) : Except Fault (List (String × String)) :=
  readLines ((dropByteOrderMark text).length + 1) (dropByteOrderMark text)

/-- Keys that may stand behind the ones seen: all of them are known, and none comes twice. -/
structure Admits (known seen keys : List String) : Prop where
  /-- The keys are known. -/
  known : ∀ key ∈ keys, key ∈ known
  /-- They have not been seen. -/
  fresh : ∀ key ∈ keys, key ∉ seen
  /-- They differ from each other. -/
  nodup : keys.Nodup

/-- A key that must not stand behind others. -/
inductive BadKey (known before : List String) (key : String) : Fault → Prop where
  /-- It is not known. -/
  | unknown (h : key ∉ known) : BadKey known before key (.unknownKey key)
  /-- It is one of the others. -/
  | repeated (hknown : key ∈ known) (h : key ∈ before) : BadKey known before key (.repeatedKey key)

/-- Only which keys stand in front of a key matters for it. -/
theorem BadKey.mono {known before before' : List String} {key : String} {fault : Fault}
    (h : BadKey known before key fault) (hsubset : before ⊆ before') :
    BadKey known before' key fault := by
  cases h with
  | unknown h => exact .unknown h
  | repeated hknown h => exact .repeated hknown (hsubset h)

/-- A key is refused for what makes it bad. -/
theorem BadKey.checkKeys_eq {known seen keys : List String} {key : String} {fault : Fault}
    (h : BadKey known seen key fault) : checkKeys known seen (key :: keys) = .error fault := by
  cases h with
  | unknown h => simp [checkKeys, h]
  | repeated hknown h => simp [checkKeys, hknown, h]

/-- A key that is not bad is passed by. -/
theorem checkKeys_cons {known seen keys : List String} {key : String} (hknown : key ∈ known)
    (hseen : key ∉ seen) :
    checkKeys known seen (key :: keys) = checkKeys known (key :: seen) keys := by
  simp [checkKeys, hknown, hseen]

theorem admits_nil {known seen : List String} : Admits known seen [] :=
  ⟨by simp, by simp, .nil⟩

theorem admits_cons_iff {known seen keys : List String} {key : String} :
    Admits known seen (key :: keys) ↔
      key ∈ known ∧ key ∉ seen ∧ Admits known (key :: seen) keys := by
  constructor
  · rintro ⟨hknown, hfresh, hnodup⟩
    obtain ⟨hnotMem, hnodup⟩ := List.nodup_cons.mp hnodup
    refine ⟨hknown _ List.mem_cons_self, hfresh _ List.mem_cons_self, ?_, ?_, hnodup⟩
    · exact fun other hother => hknown other (List.mem_cons_of_mem _ hother)
    · intro other hother hseen
      rcases List.mem_cons.mp hseen with rfl | hseen
      · exact hnotMem hother
      · exact hfresh other (List.mem_cons_of_mem _ hother) hseen
  · rintro ⟨hknown, hfresh, hrest⟩
    refine ⟨?_, ?_, ?_⟩
    · exact List.forall_mem_cons.mpr ⟨hknown, hrest.known⟩
    · refine List.forall_mem_cons.mpr ⟨hfresh, fun other hother hseen => ?_⟩
      exact hrest.fresh other hother (List.mem_cons_of_mem _ hseen)
    · refine List.nodup_cons.mpr ⟨fun hmem => ?_, hrest.nodup⟩
      exact hrest.fresh key hmem List.mem_cons_self

/-- Keys are accepted exactly if they may stand there. -/
theorem checkKeys_eq_ok_iff {known seen keys : List String} :
    checkKeys known seen keys = .ok () ↔ Admits known seen keys := by
  induction keys generalizing seen with
  | nil => exact ⟨fun _ => admits_nil, fun _ => rfl⟩
  | cons key keys ih =>
    rw [admits_cons_iff, ← ih, checkKeys]
    by_cases hknown : key ∈ known
    · by_cases hseen : key ∈ seen <;> simp [hknown, hseen]
    · simp [hknown]

/-- The first key that must not stand there is what they are refused for. -/
theorem checkKeys_eq_error_iff {known seen keys : List String} {fault : Fault} :
    checkKeys known seen keys = .error fault ↔
      ∃ before key after, keys = before ++ key :: after ∧ Admits known seen before ∧
        BadKey known (before ++ seen) key fault := by
  -- A key that is passed by counts as seen for the rest, so both inductions are for any keys seen.
  constructor
  · intro h
    induction keys generalizing seen with
    | nil => cases h
    | cons key keys ih =>
      by_cases hknown : key ∈ known
      · by_cases hseen : key ∈ seen
        · have hbad : BadKey known seen key (.repeatedKey key) := .repeated hknown hseen
          rw [hbad.checkKeys_eq] at h
          cases h
          exact ⟨[], key, keys, rfl, admits_nil, hbad⟩
        · rw [checkKeys_cons hknown hseen] at h
          obtain ⟨before, bad, after, rfl, hbefore, hbad⟩ := ih h
          refine ⟨key :: before, bad, after, rfl, ?_, ?_⟩
          · exact admits_cons_iff.mpr ⟨hknown, hseen, hbefore⟩
          · exact hbad.mono List.perm_middle.subset
      · have hbad : BadKey known seen key (.unknownKey key) := .unknown hknown
        rw [hbad.checkKeys_eq] at h
        cases h
        exact ⟨[], key, keys, rfl, admits_nil, hbad⟩
  · rintro ⟨before, key, after, rfl, hbefore, hbad⟩
    induction before generalizing seen with
    | nil => exact hbad.checkKeys_eq
    | cons other before ih =>
      obtain ⟨hknown, hseen, hrest⟩ := admits_cons_iff.mp hbefore
      rw [List.cons_append, checkKeys_cons hknown hseen]
      exact ih hrest (hbad.mono List.perm_middle.symm.subset)

/-- What a text says: its lines have keys that may stand there.  It is what the derived reader of
`ConfigFile` takes, which denies unknown keys. -/
structure Says (known : List String) (text : List Char) (entries : List (String × String)) :
    Prop where
  /-- The entries are its lines. -/
  lines_eq : lines text = .ok entries
  /-- Their keys are known and differ from each other. -/
  admits : Admits known [] (entries.map Prod.fst)

/-- Why a text says nothing.  It is either the lines or, behind that, a key. -/
inductive Malformed (known : List String) (text : List Char) : Fault → Prop where
  /-- It cannot be read. -/
  | line {fault : Fault} (h : lines text = .error fault) : Malformed known text fault
  /-- One of its keys is the first bad one. -/
  | key {entries : List (String × String)} {before after : List String} {key : String}
      {fault : Fault} (hlines : lines text = .ok entries)
      (hkeys : entries.map Prod.fst = before ++ key :: after) (hbefore : Admits known [] before)
      (hbad : BadKey known before key fault) : Malformed known text fault

/-- A text is read by its lines, and then by their keys. -/
theorem read_eq (known : List String) (text : List Char) :
    read known text = (do
      let entries ← lines text
      checkKeys known [] (entries.map Prod.fst)
      return entries) :=
  rfl

theorem read_eq_ok_iff {known : List String} {text : List Char}
    {entries : List (String × String)} :
    read known text = .ok entries ↔ Says known text entries := by
  rw [read_eq]
  constructor
  · intro h
    obtain ⟨hlines, ⟨⟩, hkeys⟩ := by simpa using h
    exact ⟨hlines, checkKeys_eq_ok_iff.mp hkeys⟩
  · rintro ⟨hlines, hadmits⟩
    rw [hlines, Except.ok_bind, checkKeys_eq_ok_iff.mpr hadmits]
    rfl

theorem read_eq_error_iff {known : List String} {text : List Char} {fault : Fault} :
    read known text = .error fault ↔ Malformed known text fault := by
  rw [read_eq]
  constructor
  · intro h
    cases hlines : lines text with
    | error found =>
      rw [hlines] at h
      cases h
      exact .line hlines
    | ok entries =>
      rw [hlines, Except.ok_bind] at h
      cases hkeys : checkKeys known [] (entries.map Prod.fst) with
      | error found =>
        rw [hkeys] at h
        cases h
        obtain ⟨before, key, after, heq, hbefore, hbad⟩ := checkKeys_eq_error_iff.mp hkeys
        exact .key hlines heq hbefore (List.append_nil before ▸ hbad)
      | ok =>
        rw [hkeys] at h
        cases h
  · intro h
    cases h with
    | line hlines =>
      rw [hlines]
      rfl
    | key hlines heq hbefore hbad =>
      have hkeys := checkKeys_eq_error_iff.mpr
        ⟨_, _, _, heq, hbefore, hbad.mono (List.subset_append_left _ [])⟩
      rw [hlines, Except.ok_bind, hkeys]
      rfl

end ConfigText

/-! ## Configuration files -/

namespace Config

/-- A version that may be left out is left out, or it is one. -/
inductive ReadsAs : Option String → Option Version → Prop where
  /-- It is left out. -/
  | absent : ReadsAs none none
  /-- It is what its text says. -/
  | given {text : String} {version : Version} (h : Version.parse text = .ok version) :
      ReadsAs (some text) (some version)

/-- The text of a file. -/
def HasText (files : FileTree) (path : Path) (text : String) : Prop :=
  ∃ bytes, files.read path = .ok bytes ∧ Text.Utf8.decode? bytes = some text

/-- What a configuration file says. -/
def Holds (files : FileTree) (path : Path) (entries : List (String × String)) : Prop :=
  ∃ text, HasText files path text ∧ ConfigText.Says [elmHomeKey, compilerKey] text.toList entries

/-- Why a file is no configuration.  The order is that of `from_path`: the bytes, the text, the
keys, and the version. -/
inductive Unusable (files : FileTree) (path : Path) : ConfigError → Prop where
  /-- It cannot be read. -/
  | unreadable {fault : ReadFault} (hread : files.read path = .error fault) :
      Unusable files path (.unreadable fault)
  /-- It is no text. -/
  | notText {bytes : ByteArray} (hread : files.read path = .ok bytes)
      (htext : Text.Utf8.decode? bytes = none) : Unusable files path .notText
  /-- Its text says nothing. -/
  | malformed {text : String} {fault : ConfigText.Fault} (htext : HasText files path text)
      (h : ConfigText.Malformed [elmHomeKey, compilerKey] text.toList fault) :
      Unusable files path (.malformed fault)
  /-- Its version is none. -/
  | badVersion {entries : List (String × String)} {version : String} {error : InvalidVersion}
      (hfile : Holds files path entries) (hversion : entries.lookup compilerKey = some version)
      (h : Version.parse version = .error error) : Unusable files path (.badVersion error)

/-- A version that may be left out is read, or it is given and is none. -/
theorem exists_readsAs_or_error (text? : Option String) :
    (∃ version?, ReadsAs text? version?) ∨
      ∃ text error, text? = some text ∧ Version.parse text = .error error := by
  cases text? with
  | none => exact .inl ⟨none, .absent⟩
  | some text =>
    cases h : Version.parse text with
    | ok version => exact .inl ⟨some version, .given h⟩
    | error error => exact .inr ⟨text, error, rfl, h⟩

/-- The defaults with what a configuration file says. -/
def overlay (env : Environment) (entries : List (String × String)) (compiler : Option Version) :
    Config :=
  ⟨(entries.lookup elmHomeKey).elim env.defaultElmHome Path.mk, compiler.getD defaultCompiler⟩

theorem load_of_hasText {files : FileTree} {path : Path} {text : String} (env : Environment)
    (h : HasText files path text) : load env files path = parse env text := by
  obtain ⟨bytes, hread, hdecode⟩ := h
  simp [load, hread, hdecode, Except.mapError, Except.ok_bind]

theorem load_of_holds {files : FileTree} {path : Path} {entries : List (String × String)}
    {compiler? : Option Version} (env : Environment) (hfile : Holds files path entries)
    (hcompiler : ReadsAs (entries.lookup compilerKey) compiler?) :
    load env files path = .ok (overlay env entries compiler?) := by
  obtain ⟨text, htext, hsays⟩ := hfile
  rw [load_of_hasText env htext, parse, ConfigText.read_eq_ok_iff.mpr hsays]
  generalize hversion : entries.lookup compilerKey = version? at hcompiler
  cases hcompiler with
  | absent =>
    simp only [Except.mapError, Except.ok_bind, hversion]
    rfl
  | given h =>
    simp only [Except.mapError, Except.ok_bind, hversion, h]
    rfl

theorem load_of_unusable {files : FileTree} {path : Path} {error : ConfigError} (env : Environment)
    (h : Unusable files path error) : load env files path = .error error := by
  cases h with
  | unreadable hread =>
    rw [load, hread]
    rfl
  | notText hread htext =>
    simp only [load, hread, Except.mapError, Except.ok_bind, htext]
    rfl
  | malformed htext h =>
    rw [load_of_hasText env htext, parse, ConfigText.read_eq_error_iff.mpr h]
    rfl
  | badVersion hfile hversion h =>
    obtain ⟨text, htext, hsays⟩ := hfile
    rw [load_of_hasText env htext, parse, ConfigText.read_eq_ok_iff.mpr hsays]
    simp only [Except.mapError, Except.ok_bind, hversion, h]
    rfl

/-- A file is a configuration, or there is a reason why it is none. -/
theorem holds_or_unusable (files : FileTree) (path : Path) :
    (∃ entries compiler?, Holds files path entries ∧
      ReadsAs (entries.lookup compilerKey) compiler?) ∨ ∃ error, Unusable files path error := by
  cases hread : files.read path with
  | error fault => exact .inr ⟨_, .unreadable hread⟩
  | ok bytes =>
    cases hdecode : Text.Utf8.decode? bytes with
    | none => exact .inr ⟨_, .notText hread hdecode⟩
    | some text =>
      have htext : HasText files path text := ⟨bytes, hread, hdecode⟩
      cases hentries : ConfigText.read [elmHomeKey, compilerKey] text.toList with
      | error fault =>
        exact .inr ⟨_, .malformed htext (ConfigText.read_eq_error_iff.mp hentries)⟩
      | ok entries =>
        have hfile : Holds files path entries :=
          ⟨text, htext, ConfigText.read_eq_ok_iff.mp hentries⟩
        rcases exists_readsAs_or_error (entries.lookup compilerKey) with
          ⟨compiler?, hcompiler⟩ | ⟨version, error, hversion, h⟩
        · exact .inl ⟨entries, compiler?, hfile, hcompiler⟩
        · exact .inr ⟨_, .badVersion hfile hversion h⟩

/-! ## Layers -/

/-- What a layer says of the configuration. -/
structure Layer where
  /-- The home directory of the compiler's tools. -/
  elmHome : Option Path
  /-- The compiler version. -/
  compiler : Option Version

end Config

/-- The home directory of the compiler's tools if the variable for it is not set: in the user's home
directory, if there is one. -/
def Environment.builtInElmHome (env : Environment) : Path :=
  (env.home.filter (· ≠ "")).elim ⟨".elm"⟩ fun home => (⟨home⟩ : Path) / ".elm"

namespace CommandLine

open Config

/-- What the configuration file of a run says, if there is one. -/
inductive FileSays (files : FileTree) : Option String → Layer → Prop where
  /-- There is none. -/
  | absent : FileSays files none ⟨none, none⟩
  /-- What it says of each field. -/
  | given {path : String} {entries : List (String × String)} {compiler? : Option Version}
      (hfile : Holds files ⟨path⟩ entries)
      (hcompiler : ReadsAs (entries.lookup compilerKey) compiler?) :
      FileSays files (some path) ⟨(entries.lookup elmHomeKey).map Path.mk, compiler?⟩

/-- The layers of a run, the one that comes first on top.  At the bottom stands what `default` says,
which leaves nothing open. -/
inductive Layered (setting : Setting) (flags : Flags) : List Layer → Prop where
  /-- The flags, the configuration file, the environment, and what holds otherwise. -/
  | intro {compiler? : Option Version} {file : Layer}
      (hflags : ReadsAs flags.compiler compiler?)
      (hfile : FileSays setting.files flags.config file) :
      Layered setting flags
        [⟨flags.elmHome.map Path.mk, compiler?⟩, file,
          ⟨setting.environment.elmHome.map Path.mk, none⟩,
          ⟨some setting.environment.builtInElmHome, some (.ofNumbers 0 19 1)⟩]

/-- Why a run has no configuration. -/
inductive Unconfigured (setting : Setting) (flags : Flags) : Failure → Prop where
  /-- The configuration file is none, whatever the flags say. -/
  | badFile {path : String} {error : ConfigError} (hflag : flags.config = some path)
      (h : Unusable setting.files ⟨path⟩ error) : Unconfigured setting flags (.badConfig path error)
  /-- There is nothing wrong with the file, and the version of the flags is none. -/
  | badCompiler {text : String} {error : InvalidVersion} {file : Layer}
      (hfile : FileSays setting.files flags.config file) (hflag : flags.compiler = some text)
      (h : Version.parse text = .error error) :
      Unconfigured setting flags (.badCompiler text error)

/-- The lower two layers say where the home directory is by default. -/
theorem firstGiven_defaultElmHome (env : Environment) :
    FirstGiven [env.elmHome.map Path.mk, some env.builtInElmHome] env.defaultElmHome := by
  obtain ⟨elmHome | elmHome, home⟩ := env
  · have hbuiltIn : Environment.defaultElmHome ⟨none, home⟩ =
        Environment.builtInElmHome ⟨none, home⟩ := by
      cases home with
      | none => rfl
      | some home =>
        by_cases h : home = "" <;>
          simp [Environment.builtInElmHome, Environment.defaultElmHome, Option.filter, h]
    rw [hbuiltIn]
    exact .skip .top
  · exact .top

/-- The lower three layers say what holds without the flags. -/
theorem baseConfig_of_fileSays {setting : Setting} {flags : Flags} {file : Layer}
    (h : FileSays setting.files flags.config file) :
    ∃ base, baseConfig setting flags = .ok base ∧
      FirstGiven [file.elmHome, setting.environment.elmHome.map Path.mk,
        some setting.environment.builtInElmHome] base.elmHome ∧
      FirstGiven [file.compiler, none, some (.ofNumbers 0 19 1)] base.compiler := by
  have hdefault := firstGiven_defaultElmHome setting.environment
  rw [baseConfig]
  generalize flags.config = path? at h
  cases h with
  | absent => exact ⟨_, rfl, .skip hdefault, .skip (.skip .top)⟩
  | @given path entries compiler? hfile hcompiler =>
    refine ⟨overlay setting.environment entries compiler?, ?_, ?_, ?_⟩
    · simp [load_of_holds _ hfile hcompiler]
    · cases helmHome : entries.lookup elmHomeKey with
      | none => simpa [overlay, helmHome] using .skip hdefault
      | some elmHome => simpa [overlay, helmHome] using .top
    · cases compiler? with
      | none => exact .skip (.skip .top)
      | some compiler => exact .top

/-- The layers of a run are its configuration, field by field. -/
theorem configOf_of_layered {setting : Setting} {flags : Flags} {layers : List Layer}
    (h : Layered setting flags layers) :
    ∃ config, configOf setting flags = .ok config ∧
      FirstGiven (layers.map Layer.elmHome) config.elmHome ∧
      FirstGiven (layers.map Layer.compiler) config.compiler := by
  obtain ⟨hflags, hfile⟩ := h
  rename_i compiler? file
  obtain ⟨base, hbase, helmHome, hcompiler⟩ := baseConfig_of_fileSays hfile
  refine ⟨⟨flags.elmHome.elim base.elmHome Path.mk, compiler?.getD base.compiler⟩, ?_, ?_, ?_⟩
  · rw [configOf, hbase, Except.ok_bind]
    generalize flags.compiler = text? at hflags
    cases hflags with
    | absent => rfl
    | given h =>
      simp only [readCompiler, h]
      rfl
  · cases hflag : flags.elmHome with
    | none => simpa [hflag] using .skip helmHome
    | some elmHome => simpa [hflag] using .top
  · cases compiler? with
    | none => exact .skip hcompiler
    | some compiler => exact .top

/-- What is wrong with a run is what it fails with. -/
theorem configOf_of_unconfigured {setting : Setting} {flags : Flags} {failure : Failure}
    (h : Unconfigured setting flags failure) : configOf setting flags = .error failure := by
  cases h with
  | badFile hflag h =>
    simp only [configOf, baseConfig, hflag, load_of_unusable _ h]
    rfl
  | badCompiler hfile hflag h =>
    obtain ⟨base, hbase, -, -⟩ := baseConfig_of_fileSays hfile
    simp only [configOf, hbase, Except.ok_bind, hflag, readCompiler, h]
    rfl

/-- A run has its layers, or something is wrong with it. -/
theorem layered_or_unconfigured (setting : Setting) (flags : Flags) :
    (∃ layers, Layered setting flags layers) ∨ ∃ failure, Unconfigured setting flags failure := by
  have hfile : (∃ file, FileSays setting.files flags.config file) ∨
      ∃ failure, Unconfigured setting flags failure := by
    cases hflag : flags.config with
    | none => exact .inl ⟨_, .absent⟩
    | some path =>
      rcases holds_or_unusable setting.files ⟨path⟩ with
        ⟨entries, compiler?, hfile, hcompiler⟩ | ⟨error, hbad⟩
      · exact .inl ⟨_, .given hfile hcompiler⟩
      · exact .inr ⟨_, .badFile hflag hbad⟩
  rcases hfile with ⟨file, hfile⟩ | hbad
  · rcases exists_readsAs_or_error flags.compiler with
      ⟨compiler?, hflags⟩ | ⟨text, error, hflag, h⟩
    · exact .inl ⟨_, .intro hflags hfile⟩
    · exact .inr ⟨_, .badCompiler hfile hflag h⟩
  · exact .inr hbad

/-- The configuration of a run is what its layers say. -/
theorem firstGiven_of_configOf {setting : Setting} {flags : Flags} {layers : List Layer}
    {config : Config} (hlayers : Layered setting flags layers)
    (hconfig : configOf setting flags = .ok config) :
    FirstGiven (layers.map Layer.elmHome) config.elmHome ∧
      FirstGiven (layers.map Layer.compiler) config.compiler := by
  obtain ⟨found, hfound, hgiven⟩ := configOf_of_layered hlayers
  rw [hconfig] at hfound
  cases hfound
  exact hgiven

/-- **The configuration of a run is settled field by field**: by the first layer that says something
of the field, whatever the layers below it say of it and whatever any layer says of the other field.
There is none exactly if something is wrong with the file or, behind that, with the flags.
`repository_config` overwrites one record from the bottom to the top, and the statement reads the
same from the top to the bottom. -/
theorem configOf_layers (setting : Setting) (flags : Flags) :
    (∀ config, configOf setting flags = .ok config ↔
      ∃ layers, Layered setting flags layers ∧
        FirstGiven (layers.map Layer.elmHome) config.elmHome ∧
        FirstGiven (layers.map Layer.compiler) config.compiler) ∧
    (∀ failure, configOf setting flags = .error failure ↔ Unconfigured setting flags failure) ∧
    ∀ setting' flags' layers layers' config config',
      Layered setting flags layers → Layered setting' flags' layers' →
      configOf setting flags = .ok config → configOf setting' flags' = .ok config' →
      (Relation.ReflTransGen ChangesBelow (layers.map Layer.elmHome) (layers'.map Layer.elmHome) →
        config.elmHome = config'.elmHome) ∧
      (Relation.ReflTransGen ChangesBelow (layers.map Layer.compiler)
          (layers'.map Layer.compiler) →
        config.compiler = config'.compiler) := by
  -- A run has layers or something is wrong with it, and each of the two settles what it comes to.
  refine ⟨fun config => ⟨fun hconfig => ?given, ?settled⟩,
    fun failure => ⟨fun hfail => ?reason, ?fails⟩, ?overridden⟩
  case given =>
    rcases layered_or_unconfigured setting flags with ⟨layers, hlayers⟩ | ⟨failure, hbad⟩
    · exact ⟨layers, hlayers, firstGiven_of_configOf hlayers hconfig⟩
    · rw [configOf_of_unconfigured hbad] at hconfig
      cases hconfig
  case settled =>
    rintro ⟨layers, hlayers, helmHome, hcompiler⟩
    obtain ⟨⟨elmHome, compiler⟩, hfound, helmHome', hcompiler'⟩ := configOf_of_layered hlayers
    rw [hfound]
    have h := congrArg₂ Config.mk (helmHome'.unique helmHome) (hcompiler'.unique hcompiler)
    exact congrArg Except.ok h
  case reason =>
    rcases layered_or_unconfigured setting flags with ⟨layers, hlayers⟩ | ⟨found, hbad⟩
    · obtain ⟨config, hconfig, -⟩ := configOf_of_layered hlayers
      rw [hconfig] at hfail
      cases hfail
    · rw [configOf_of_unconfigured hbad] at hfail
      cases hfail
      exact hbad
  case fails => exact configOf_of_unconfigured
  case overridden =>
    intro setting' flags' layers layers' config config' hlayers hlayers' hconfig hconfig'
    obtain ⟨helmHome, hcompiler⟩ := firstGiven_of_configOf hlayers hconfig
    obtain ⟨helmHome', hcompiler'⟩ := firstGiven_of_configOf hlayers' hconfig'
    exact ⟨helmHome.eq_of_changesBelow helmHome', hcompiler.eq_of_changesBelow hcompiler'⟩

/-! ## A file below a flag -/

/-- The text of a configuration that gives both fields. -/
def layeredText (elmHome : String) : String :=
  "elm-home = \"" ++ elmHome ++ "\"\ncompiler-version = \"0.19.0\"\n"

/-- A configuration file that gives both fields, below variables that are set, one of them to
nothing. -/
def layeredSetting (elmHome : String) : Setting where
  environment := ⟨some "", some "/home/user"⟩
  files := ⟨[(["elm-project.toml"], .file (layeredText elmHome).toUTF8)], []⟩

/-- The layers of a run with this file and a flag for the home directory. -/
def layersOver (elmHome : String) : List Layer :=
  [⟨some ⟨"/flag"⟩, none⟩, ⟨some ⟨elmHome⟩, some (.ofNumbers 0 19 0)⟩, ⟨some ⟨""⟩, none⟩,
    ⟨some ⟨"/home/user/.elm"⟩, some (.ofNumbers 0 19 1)⟩]

theorem layered_layeredSetting {elmHome : String}
    (hfile : Holds (layeredSetting elmHome).files ⟨"elm-project.toml"⟩
      [("elm-home", elmHome), ("compiler-version", "0.19.0")]) :
    Layered (layeredSetting elmHome) ⟨some "/flag", none, some "elm-project.toml", false⟩
      (layersOver elmHome) := by
  have hversion : Version.parse "0.19.0" = .ok (.ofNumbers 0 19 0) :=
    eq_ok_of_toOption (by decide +kernel)
  have hhome : Environment.builtInElmHome ⟨some "", some "/home/user"⟩ = ⟨"/home/user/.elm"⟩ := by
    decide +kernel
  rw [layersOver, ← hhome]
  exact .intro .absent (.given hfile (.given hversion))

theorem holds_layeredSetting {elmHome : String}
    (hlines : (ConfigText.lines (layeredText elmHome).toList).toOption =
      some [("elm-home", elmHome), ("compiler-version", "0.19.0")]) :
    Holds (layeredSetting elmHome).files ⟨"elm-project.toml"⟩
      [("elm-home", elmHome), ("compiler-version", "0.19.0")] := by
  have hread : (layeredSetting elmHome).files.read ⟨"elm-project.toml"⟩ =
      .ok (layeredText elmHome).toUTF8 :=
    FileTree.read_eq_ok_iff.mpr ⟨["elm-project.toml"], rfl, rfl⟩
  have hadmits : ConfigText.Admits [elmHomeKey, compilerKey] []
      ["elm-home", "compiler-version"] := ⟨by decide, by decide, by decide⟩
  exact ⟨_, ⟨_, hread, Text.Utf8.decode?_toUTF8 _⟩, eq_ok_of_toOption hlines, hadmits⟩

/-- The flag overrides the home directory of the file, so a file with another one makes no
difference to it, nor to the version, which the file gives.  A file that is missing comes before a
version that is none. -/
theorem configOf_layers_layeredSetting :
    let flags : Flags := ⟨some "/flag", none, some "elm-project.toml", false⟩
    let config : Config := ⟨⟨"/flag"⟩, .ofNumbers 0 19 0⟩
    configOf (layeredSetting "/a") flags = .ok config ∧
      configOf (layeredSetting "/b") flags = .ok config ∧
      configOf (layeredSetting "/a") ⟨none, some "latest", some "none.toml", false⟩ =
        .error (.badConfig "none.toml" (.unreadable .notFound)) ∧
      ∃ error, configOf (layeredSetting "/a") ⟨none, some "latest", none, false⟩ =
        .error (.badCompiler "latest" error) := by
  intro flags config
  have hfirst : Layered (layeredSetting "/a") flags (layersOver "/a") :=
    layered_layeredSetting (holds_layeredSetting (by decide +kernel))
  have hsecond : Layered (layeredSetting "/b") flags (layersOver "/b") :=
    layered_layeredSetting (holds_layeredSetting (by decide +kernel))
  obtain ⟨hsettled, -, hoverridden⟩ := configOf_layers (layeredSetting "/a") flags
  have hconfig : configOf (layeredSetting "/a") flags = .ok config :=
    (hsettled _).mpr ⟨_, hfirst, .top, .skip .top⟩
  have hconfig' : configOf (layeredSetting "/b") flags = .ok config := by
    obtain ⟨other, hother, -⟩ := configOf_of_layered hsecond
    obtain ⟨helmHome, hcompiler⟩ := hoverridden _ _ _ _ _ _ hfirst hsecond hconfig hother
    have hchange : ChangesBelow ((layersOver "/a").map Layer.elmHome)
        ((layersOver "/b").map Layer.elmHome) :=
      @ChangesBelow.intro Path [some ⟨"/flag"⟩] [some ⟨""⟩, some ⟨"/home/user/.elm"⟩] ⟨"/flag"⟩
        (some ⟨"/a"⟩) (some ⟨"/b"⟩) List.mem_cons_self
    have hsame : config = other :=
      congrArg₂ Config.mk (helmHome (.single hchange)) (hcompiler .refl)
    rw [hother, hsame]
  refine ⟨hconfig, hconfig', ?_, ?_⟩
  · have hread : (layeredSetting "/a").files.read ⟨"none.toml"⟩ = .error .notFound := rfl
    exact ((configOf_layers _ _).2.1 _).mpr (.badFile rfl (.unreadable hread))
  · obtain ⟨error, hversion⟩ : ∃ error, Version.parse "latest" = .error error :=
      exists_eq_error_of_toOption (by decide +kernel)
    exact ⟨error, ((configOf_layers _ _).2.1 _).mpr (.badCompiler .absent rfl hversion)⟩

end CommandLine

end ElmManifest
