import ElmManifest.Proofs.Manifest.Agreement
import ElmManifest.Proofs.Manifest.Writing
import Mathlib.Logic.Relation

/-!
# Manifests written otherwise

What may be changed in the text of a manifest without a change of what it declares.  The modules of
a package may be put in groups, under any names, as long as the groups one after the other list them
in their order.  Entries may come in another order, dependencies may, and entries under keys that
the manifest does not know may come and go.

Nothing is said here of how the text is read: a text is read as an object, and objects that say the
same are read as the same manifest.  It makes no difference whether the text is gone through once or
twice, though the second pass reads the modules from the text and skips what it does not know.

## Main Definitions

* `Manifest.exposedModules?` — the modules that a manifest exposes.
* `Rearranges` — one change to an object that a manifest does not notice.

## Main Statements

* `Manifest.exposedModules_sourceOrder` — modules are exposed in the order of the text, and any text
  that lists them in that order is the same manifest.
* `Manifest.decode_of_rearranges` — no number of such changes is noticed.
-/

namespace ElmManifest

/-! ## Changes in one place -/

section Places

variable {keys : List String}

theorem forall₂_alike_refl (key : String) (values : List Json) :
    List.Forall₂ (Json.Alike key) values values :=
  List.forall₂_same.mpr fun value _ => .same value

/-- Objects agree if under each key the same values are listed. -/
theorem agree_of_valuesUnder_eq {entries entries' : List (String × Json)}
    (h : ∀ key ∈ keys, valuesUnder key entries = valuesUnder key entries') :
    Agree keys entries entries' := by
  intro key hkey
  rw [h key hkey]
  exact forall₂_alike_refl ..

/-- An object agrees with itself in another order. -/
theorem agree_of_perm {entries entries' : List (String × Json)} (hperm : entries.Perm entries')
    (hkeys : (entries.map Prod.fst).Nodup) : Agree keys entries entries' :=
  agree_of_valuesUnder_eq fun key _ => valuesUnder_eq_of_perm hperm hkeys key

/-- An object agrees with what has a value in one of its places that is alike. -/
theorem agree_replace (before after : List (String × Json)) {key : String} {value value' : Json}
    (h : Json.Alike key value value') :
    Agree keys (before ++ (key, value) :: after) (before ++ (key, value') :: after) := by
  intro name _
  rw [valuesUnder_append, valuesUnder_append]
  refine List.rel_append (forall₂_alike_refl ..) ?_
  by_cases hname : key = name
  · subst hname
    rw [valuesUnder_cons_self, valuesUnder_cons_self]
    exact .cons h (forall₂_alike_refl ..)
  · rw [valuesUnder_cons_of_ne hname, valuesUnder_cons_of_ne hname]
    exact forall₂_alike_refl ..

/-- An entry under a key that is not among the keys is not there. -/
theorem valuesUnder_insert {key name : String} (h : key ≠ name)
    (before after : List (String × Json)) (value : Json) :
    valuesUnder name (before ++ (key, value) :: after) = valuesUnder name (before ++ after) := by
  rw [valuesUnder_append, valuesUnder_append, valuesUnder_cons_of_ne h]

end Places

namespace Manifest

variable {path : Path} {bytes : ByteArray} {entries : List (String × Json)} {m : Manifest}

/-- The text of an object is decoded as what the object is read as, whether it is gone through once
or twice. -/
theorem decode_of_isReadFrom (hread : Json.ofBytes bytes = .ok (.object entries))
    (h : IsReadFrom path entries m) :
    decode path bytes = .ok m ∧
      ∀ limit, Json.maxDepth ≤ limit → decodeTwice limit path bytes = .ok m := by
  have hdecode : decode path bytes = .ok m := (decode_eq_ok_iff_isReadFrom hread).mpr h
  refine ⟨hdecode, fun limit hlimit => ?_⟩
  rw [decodeTwice_eq hlimit, hdecode]

/-! ## The order of modules -/

/-- The modules that a manifest exposes, if it is one that exposes modules. -/
def exposedModules? : Manifest → Option (List String)
  | .application _ => none
  | .package declared => some declared.exposedModules
  | .legacy declared => some declared.exposedModules

/-- A field with modules holds what its one value exposes. -/
theorem exposes_of_mayHold {held : Option (List String)}
    (h : (Field.ofShape "exposed-modules" Json.asModuleNames).MayHold entries held) :
    (valuesUnder "exposed-modules" entries = [] ∧ held.getD [] = []) ∨
      ∃ value, valuesUnder "exposed-modules" entries = [value] ∧ value.Exposes (held.getD []) := by
  cases held with
  | none => exact .inl ⟨h, rfl⟩
  | some names =>
    obtain ⟨value, hvalue, hnames⟩ := h
    refine .inr ⟨value, hvalue, ?_⟩
    exact Json.asModuleNames_eq_ok_iff_exposes.mp (Except.mapError_eq_ok_iff.mp hnames)

/-- An object that is read as a manifest has one value for the exposed modules, which exposes what
the manifest exposes, or it has none and exposes nothing. -/
theorem exposes_of_isReadFrom (h : IsReadFrom path entries m) {modules : List String}
    (hmodules : m.exposedModules? = some modules) :
    (valuesUnder "exposed-modules" entries = [] ∧ modules = []) ∨
      ∃ value, valuesUnder "exposed-modules" entries = [value] ∧ value.Exposes modules := by
  unfold IsReadFrom at h
  split at h
  · obtain ⟨l, hl, rfl⟩ := h
    obtain ⟨_, _, held, _, -, -, hheld, -, -, -, -, hexposed, -⟩ :=
      LegacyManifest.ofEntries_eq_ok_iff.mp hl
    obtain rfl : l.exposedModules = modules := Option.some.inj hmodules
    rw [hexposed]
    exact exposes_of_mayHold hheld
  · obtain ⟨-, a, -, rfl⟩ | ⟨-, p, hp, rfl⟩ := ofEntries_eq_ok_iff.mp h
    · cases hmodules
    · obtain ⟨_, _, _, _, held, _, _, -, -, -, -, -, hheld, -, -, -, -, -, -, -, -, -, hexposed⟩ :=
        Package.ofEntries_eq_ok_iff.mp hp
      obtain rfl : p.exposedModules = modules := Option.some.inj hmodules
      rw [hexposed]
      exact exposes_of_mayHold hheld

/-- **Modules are exposed in the order of the text.**  The key is missing and nothing is exposed, or
its one value is a list of the modules, or it is an object of lists under any names, which are put
one after the other.  With any other value that lists the same modules in the same order, the text
is the same manifest.  This is why the typed pass reads the original bytes: a map that has been read
has lost the order of its entries. -/
theorem exposedModules_sourceOrder (hread : Json.ofBytes bytes = .ok (.object entries))
    (hdecode : decode path bytes = .ok m) {modules : List String}
    (hmodules : m.exposedModules? = some modules) :
    ((valuesUnder "exposed-modules" entries = [] ∧ modules = []) ∨
      (∃ names, valuesUnder "exposed-modules" entries = [Json.flatModules names] ∧
        modules = names) ∨
      ∃ groups, valuesUnder "exposed-modules" entries = [Json.groupedModules groups] ∧
        modules = groups.flatMap Prod.snd) ∧
    ∀ before value after value' bytes',
      entries = before ++ ("exposed-modules", value) :: after → value'.Exposes modules →
        Json.ofBytes bytes' = .ok (.object (before ++ ("exposed-modules", value') :: after)) →
          decode path bytes' = .ok m ∧
            ∀ limit, Json.maxDepth ≤ limit → decodeTwice limit path bytes' = .ok m := by
  have hfrom : IsReadFrom path entries m := (decode_eq_ok_iff_isReadFrom hread).mp hdecode
  have hexposes := exposes_of_isReadFrom hfrom hmodules
  refine ⟨hexposes.imp_right ?_, ?_⟩
  · rintro ⟨value, hvalue, ⟨names⟩ | ⟨groups⟩⟩
    · exact .inl ⟨_, hvalue, rfl⟩
    · exact .inr ⟨groups, hvalue, rfl⟩
  · rintro before value after value' bytes' rfl hvalue' hread'
    -- the key is there, so its value exposes the modules as well
    have hvalues : value ∈
        valuesUnder "exposed-modules" (before ++ ("exposed-modules", value) :: after) := by
      rw [valuesUnder_append, valuesUnder_cons_self]
      simp
    have hvalue : value.Exposes modules := by
      obtain ⟨hnone, -⟩ | ⟨other, hother, hexposed⟩ := hexposes
      · rw [hnone] at hvalues
        cases hvalues
      · rw [hother] at hvalues
        rwa [List.mem_singleton.mp hvalues]
    exact decode_of_isReadFrom hread' (isReadFrom_of_agree
      (agree_replace before after (.exposing rfl hvalue hvalue')) hfrom)

end Manifest

/-- A small package with a value for its exposed modules. -/
def exposingEntries (modules : Json) : List (String × Json) := [
  ("type", .string "package"), ("name", .string "a/b"), ("version", .string "1.0.0"),
  ("elm-version", .string "0.19.0 <= v < 0.20.0"), ("exposed-modules", modules)]

/-- Its text. -/
def exposingText (modules : List Char) : String :=
  String.ofList (Json.objectText [
    ("type", Json.stringText "package"), ("name", Json.stringText "a/b"),
    ("version", Json.stringText "1.0.0"),
    ("elm-version", Json.stringText "0.19.0 <= v < 0.20.0"), ("exposed-modules", modules)])

theorem ofBytes_exposingText {text : List Char} {modules : Json}
    (h : Json.Spells (Json.maxDepth - 1) text modules) :
    Json.ofBytes (exposingText text).toUTF8 = .ok (.object (exposingEntries modules)) := by
  apply Json.ofBytes_objectText
  unfold exposingEntries
  simp only [List.forall₂_cons, List.Forall₂.nil, true_and, and_true]
  exact ⟨Json.spells_string .., Json.spells_string .., Json.spells_string ..,
    Json.spells_string .., h⟩

/-- Modules in groups, two of which have one name, are exposed like the same modules in a list. -/
theorem exposedModules_sourceOrder_groups :
    let flat := (exposingText (textsText ["C", "A", "B"])).toUTF8
    let grouped := (exposingText (Json.objectText
      [("Z", textsText ["C"]), ("B", textsText ["A"]), ("Z", textsText ["B"])])).toUTF8
    ∃ m, Manifest.decode ⟨"elm.json"⟩ flat = .ok m ∧ m.exposedModules? = some ["C", "A", "B"] ∧
      Manifest.decode ⟨"elm.json"⟩ grouped = .ok m := by
  intro flat grouped
  have hsome : (Manifest.decode ⟨"elm.json"⟩ flat).toOption.bind Manifest.exposedModules? =
      some ["C", "A", "B"] := by
    decide +kernel
  obtain ⟨m, hm, hmodules⟩ := Option.bind_eq_some_iff.mp hsome
  have hm := eq_ok_of_toOption hm
  have hflat : Json.ofBytes flat =
      .ok (.object (exposingEntries (Json.flatModules ["C", "A", "B"]))) :=
    ofBytes_exposingText (Json.spells_texts 125 _)
  have hgrouped : Json.ofBytes grouped = .ok (.object (exposingEntries
      (Json.groupedModules [("Z", ["C"]), ("B", ["A"]), ("Z", ["B"])]))) := by
    apply ofBytes_exposingText
    show Json.Spells (125 + 1) _ _
    apply Json.spells_object
    simp only [List.map_cons, List.map_nil, List.forall₂_cons, List.Forall₂.nil, true_and,
      and_true]
    exact ⟨Json.spells_texts 124 _, Json.spells_texts 124 _, Json.spells_texts 124 _⟩
  exact ⟨m, hm, hmodules, ((Manifest.exposedModules_sourceOrder hflat hm hmodules).2
    ((exposingEntries .null).take 4) _ [] _ grouped rfl (.grouped _) hgrouped).1⟩

/-! ## Changes that are not noticed -/

/-- One change to an object that a manifest with these keys does not notice. -/
inductive Rearranges (known : List String) :
    List (String × Json) → List (String × Json) → Prop where
  /-- The entries come in another order; their keys are distinct. -/
  | order {entries entries' : List (String × Json)} (hperm : entries.Perm entries')
      (hkeys : (entries.map Prod.fst).Nodup) : Rearranges known entries entries'
  /-- Dependencies come in another order, where their names are distinct. -/
  | dependencies (before after : List (String × Json)) {key : String}
      (hkey : key ∈ dependencyKeys) {value value' : Json} (h : value.Shuffled value') :
      Rearranges known (before ++ (key, value) :: after) (before ++ (key, value') :: after)
  /-- There is one more entry, under an unknown key. -/
  | added (before after : List (String × Json)) {key : String} (hkey : key ∉ known)
      (value : Json) : Rearranges known (before ++ after) (before ++ (key, value) :: after)
  /-- There is one entry less, which was under an unknown key. -/
  | removed (before after : List (String × Json)) {key : String} (hkey : key ∉ known)
      (value : Json) : Rearranges known (before ++ (key, value) :: after) (before ++ after)
  /-- An entry under an unknown key is another one. -/
  | replaced (before after : List (String × Json)) {key key' : String} (hkey : key ∉ known)
      (hkey' : key' ∉ known) (value value' : Json) :
      Rearranges known (before ++ (key, value) :: after) (before ++ (key', value') :: after)

/-- After a change, the object agrees with what it was. -/
theorem agree_of_rearranges {known : List String} {entries entries' : List (String × Json)}
    (h : Rearranges known entries entries') : Agree known entries entries' := by
  have hother : ∀ {key name : String}, key ∉ known → name ∈ known → key ≠ name :=
    fun hkey hname heq => hkey (heq ▸ hname)
  cases h with
  | order hperm hkeys => exact agree_of_perm hperm hkeys
  | dependencies before after hkey h => exact agree_replace before after (.shuffled hkey h)
  | added before after hkey value =>
    exact agree_of_valuesUnder_eq fun name hname =>
      (valuesUnder_insert (hother hkey hname) ..).symm
  | removed before after hkey value =>
    exact agree_of_valuesUnder_eq fun name hname => valuesUnder_insert (hother hkey hname) ..
  | replaced before after hkey hkey' value value' =>
    apply agree_of_valuesUnder_eq
    intro name hname
    rw [valuesUnder_insert (hother hkey hname), valuesUnder_insert (hother hkey' hname)]

/-- **No number of such changes is noticed**: the object is still read as the manifest.  The
induction is on the changes, each of which leaves the objects in agreement. -/
theorem Manifest.isReadFrom_of_rearranges {path : Path} {m : Manifest}
    {entries entries' : List (String × Json)}
    (h : Relation.ReflTransGen (Rearranges m.knownKeys) entries entries')
    (hfrom : IsReadFrom path entries m) : IsReadFrom path entries' m := by
  induction h with
  | refl => exact hfrom
  | tail _ hstep ih => exact isReadFrom_of_agree (agree_of_rearranges hstep) ih

/-- **What a manifest does not notice leaves it the same**: if a text is decoded, so is any text of
the object after such changes, as the same manifest, whether it is gone through once or twice.  What
is left are the order of modules and the order of source directories, which a manifest does
notice. -/
theorem Manifest.decode_of_rearranges {path : Path} {bytes bytes' : ByteArray} {m : Manifest}
    {entries entries' : List (String × Json)}
    (hread : Json.ofBytes bytes = .ok (.object entries)) (hdecode : decode path bytes = .ok m)
    (h : Relation.ReflTransGen (Rearranges m.knownKeys) entries entries')
    (hread' : Json.ofBytes bytes' = .ok (.object entries')) :
    decode path bytes' = .ok m ∧
      ∀ limit, Json.maxDepth ≤ limit → decodeTwice limit path bytes' = .ok m := by
  have hfrom : IsReadFrom path entries m := (decode_eq_ok_iff_isReadFrom hread).mp hdecode
  exact decode_of_isReadFrom hread' (isReadFrom_of_rearranges h hfrom)

/-- A range of versions, as JSON. -/
def rangeJson : Json := .string "1.0.0 <= v < 2.0.0"

/-- The text of that range. -/
def rangeText : List Char := Json.stringText "1.0.0 <= v < 2.0.0"

/-- A manifest in the older layout with two dependencies. -/
def tidyText : String :=
  String.ofList (Json.objectText [("elm-version", rangeText),
    ("dependencies", Json.objectText [("a/b", rangeText), ("c/d", rangeText)])])

/-- The same manifest in another order, with an entry that does not count in this layout. -/
def untidyText : String :=
  String.ofList (Json.objectText [
    ("dependencies", Json.objectText [("c/d", rangeText), ("a/b", rangeText)]),
    ("type", Json.arrayText []), ("elm-version", rangeText)])

/-- The tidy and the untidy text are decoded as one manifest, read once or twice. -/
theorem decode_of_rearranges_untidy : ∃ m,
    Manifest.decode ⟨"elm-package.json"⟩ tidyText.toUTF8 = .ok m ∧
      Manifest.decode ⟨"elm-package.json"⟩ untidyText.toUTF8 = .ok m := by
  have hsome : (Manifest.decode ⟨"elm-package.json"⟩ tidyText.toUTF8).toOption.map
      Manifest.knownKeys = some LegacyManifest.knownKeys := by
    decide +kernel
  obtain ⟨m, hm, hknown⟩ := Option.map_eq_some_iff.mp hsome
  have hm := eq_ok_of_toOption hm
  have hrange : ∀ depth, Json.Spells depth rangeText rangeJson := fun _ => Json.spells_string ..
  have hboth : ∀ depth first second, Json.Spells (depth + 1)
      (Json.objectText [(first, rangeText), (second, rangeText)])
      (.object [(first, rangeJson), (second, rangeJson)]) := fun depth first second =>
    Json.spells_object (.cons ⟨rfl, hrange depth⟩ (.cons ⟨rfl, hrange depth⟩ .nil))
  have htidy : Json.ofBytes tidyText.toUTF8 = .ok (.object [("elm-version", rangeJson),
      ("dependencies", .object [("a/b", rangeJson), ("c/d", rangeJson)])]) := by
    apply Json.ofBytes_objectText
    simp only [List.forall₂_cons, List.Forall₂.nil, true_and, and_true]
    exact ⟨hrange _, hboth 125 "a/b" "c/d"⟩
  have huntidy : Json.ofBytes untidyText.toUTF8 = .ok (.object [
      ("dependencies", .object [("c/d", rangeJson), ("a/b", rangeJson)]), ("type", .array []),
      ("elm-version", rangeJson)]) := by
    apply Json.ofBytes_objectText
    simp only [List.forall₂_cons, List.Forall₂.nil, true_and, and_true]
    exact ⟨hboth 125 "c/d" "a/b", Json.spells_array .nil, hrange _⟩
  refine ⟨m, hm, (Manifest.decode_of_rearranges htidy hm ?_ huntidy).1⟩
  rw [hknown]
  have hswap : ∀ (a b : String × Json), [a, b].Perm [b, a] := fun a b => List.Perm.swap b a []
  have hordered : Rearranges LegacyManifest.knownKeys
      [("elm-version", rangeJson),
        ("dependencies", .object [("a/b", rangeJson), ("c/d", rangeJson)])]
      [("dependencies", .object [("a/b", rangeJson), ("c/d", rangeJson)]),
        ("elm-version", rangeJson)] :=
    .order (hswap _ _) (by decide)
  have hshuffled : Rearranges LegacyManifest.knownKeys
      [("dependencies", .object [("a/b", rangeJson), ("c/d", rangeJson)]),
        ("elm-version", rangeJson)]
      [("dependencies", .object [("c/d", rangeJson), ("a/b", rangeJson)]),
        ("elm-version", rangeJson)] :=
    .dependencies [] _ (by decide) (.entries (hswap _ _) (by decide))
  exact ((Relation.ReflTransGen.single hordered).tail hshuffled).tail
    (.added [_] [_] (by decide) (.array []))

end ElmManifest
