import Mathlib.Data.List.Forall2
import Mathlib.Data.List.ReduceOption
import Protoclass.Proofs.Plugin.Answer
import Protoclass.Proofs.Text.White

/-!
# Parameters and options

A parameter is a list of items with commas between them.  An item sets an option, or it
is blank or meant for others and sets none.  `Written` says how an item may be written;
reading a parameter whose items are written so sets the options one after the other, so
that the last setting of each option counts.
-/

namespace Protoclass.Options

open Text (White Tight)

/-! ## Settings -/

/-- The value of one option. -/
inductive Setting where
  | targetPackage (value : Text)
  | packages (value : Text)
  | flatPack (flag : Bool)
  | language (value : Text)
  deriving DecidableEq, Repr

namespace Setting

/-- The target package that is set. -/
def targetPackage? : Setting → Option Text
  | .targetPackage value => some value
  | _ => none

/-- The package subtree that is set. -/
def packages? : Setting → Option Text
  | .packages value => some value
  | _ => none

/-- The layout that is set. -/
def flatPack? : Setting → Option Bool
  | .flatPack flag => some flag
  | _ => none

/-- The language that is set. -/
def language? : Setting → Option Text
  | .language value => some value
  | _ => none

end Setting

/-- The last of some values, or another one if there are none. -/
def lastOr {α : Type} (unset : α) (values : List α) : α := values.getLast?.getD unset

/-- The options that some settings stand for: the last setting of each option counts, and
an option that is not set has its default. -/
def ofSettings (settings : List Setting) : Options where
  targetPackage := lastOr standard.targetPackage (settings.filterMap Setting.targetPackage?)
  packages := lastOr standard.packages (settings.filterMap Setting.packages?)
  flatPack := lastOr standard.flatPack (settings.filterMap Setting.flatPack?)
  language := lastOr standard.language (settings.filterMap Setting.language?)

/-- All options, each set once. -/
def settings (options : Options) : List Setting :=
  [.targetPackage options.targetPackage, .packages options.packages,
    .flatPack options.flatPack, .language options.language]

/-- The options after one setting. -/
def apply (options : Options) : Setting → Options
  | .targetPackage value => { options with targetPackage := value }
  | .packages value => { options with packages := value }
  | .flatPack flag => { options with flatPack := flag }
  | .language value => { options with language := value }

theorem ofSettings_concat (settings : List Setting) (setting : Setting) :
    ofSettings (settings ++ [setting]) = (ofSettings settings).apply setting := by
  cases setting <;>
    simp [ofSettings, apply, lastOr, Setting.targetPackage?, Setting.packages?,
      Setting.flatPack?, Setting.language?]

theorem foldl_apply_standard (settings : List Setting) :
    settings.foldl apply standard = ofSettings settings := by
  induction settings using List.reverseRecOn with
  | nil => rfl
  | append_singleton settings setting ih =>
    rw [List.foldl_append, ih, List.foldl_cons, List.foldl_nil, ofSettings_concat]

/-- Options are read off their settings in any order. -/
theorem ofSettings_of_perm {settings : List Setting} {options : Options}
    (perm : settings.Perm options.settings) : ofSettings settings = options := by
  have single {α : Type} (unset value : α) (field : Setting → Option α)
      (only : options.settings.filterMap field = [value]) :
      lastOr unset (settings.filterMap field) = value := by
    have perm := perm.filterMap field
    rw [only] at perm
    rw [List.perm_singleton.mp perm]
    rfl
  rcases options with ⟨targetPackage, packages, flatPack, language⟩
  rw [ofSettings, single _ targetPackage _ rfl, single _ packages _ rfl, single _ flatPack _ rfl,
    single _ language _ rfl]

/-! ## Items -/

/-- A text has white space, or nothing, around another one. -/
def Padded (inner text : Text) : Prop :=
  ∃ before after, White before ∧ White after ∧ text = before ++ inner ++ after

/-- An item is a key, an equals sign and a value, with white space around each. -/
def Keyed (key value text : Text) : Prop :=
  ∃ left right, Padded key left ∧ Padded value right ∧ text = left ++ 61 :: right

/-- A value that can be told from the white space and the items around it. -/
structure Bounded (value : Text) : Prop where
  tight : Tight value
  undivided : 44 ∉ value

/-- The keys that set options. -/
def keys : List Text := ["target_package", "packages", "flat_pack", "lang", "language"]

/-- The words for a truth value. -/
def flagWords : Bool → List Text
  | true => ["1", "t", "T", "TRUE", "true", "True"]
  | false => ["0", "f", "F", "FALSE", "false", "False"]

/-- How items are written: the text of an item, with what it sets. -/
inductive Written : Text → Option Setting → Prop where
  | blank {text : Text} (white : White text) : Written text none
  | other {text : Text} (undivided : 44 ∉ text)
    (unknown : Text.trim (text.takeWhile (· != 61)) ∉ keys) : Written text none
  | targetPackage {text value : Text} (given : value ≠ []) (bounded : Bounded value)
    (keyed : Keyed "target_package" value text) : Written text (some (.targetPackage value))
  | packages {text value : Text} (bounded : Bounded value)
    (keyed : Keyed "packages" value text) : Written text (some (.packages value))
  | flatPack {text word : Text} {flag : Bool} (among : word ∈ flagWords flag)
    (keyed : Keyed "flat_pack" word text) : Written text (some (.flatPack flag))
  | flat {text : Text} (padded : Padded "flat_pack" text) : Written text (some (.flatPack true))
  | language {text key value : Text} (named : key = "lang" ∨ key = "language")
    (bounded : Bounded value) (keyed : Keyed key value text) :
    Written text (some (.language value))

theorem bounded_of_mem_flagWords {word : Text} {flag : Bool} (among : word ∈ flagWords flag) :
    Bounded word := by
  have every : ∀ flag, ∀ word ∈ flagWords flag, Tight word ∧ 44 ∉ word := by decide
  exact ⟨(every flag word among).1, (every flag word among).2⟩

theorem readBool?_of_mem_flagWords {word : Text} {flag : Bool} (among : word ∈ flagWords flag) :
    readBool? word = some flag := by
  have every : ∀ flag, ∀ word ∈ flagWords flag, readBool? word = some flag := by decide
  exact every flag word among

/-- Keys are words without white space or any of the signs that divide a parameter. -/
structure IsKey (key : Text) : Prop where
  given : key ≠ []
  tight : Tight key
  ascii : ∀ b ∈ key, b < 128
  unsplit : 61 ∉ key
  undivided : 44 ∉ key

theorem isKey_of_mem_keys {key : Text} (known : key ∈ keys) : IsKey key := by
  have every : ∀ key ∈ keys, key ≠ [] ∧ Tight key ∧ key.all (· < 128) ∧ 61 ∉ key ∧ 44 ∉ key := by
    decide
  obtain ⟨given, tight, ascii, unsplit, undivided⟩ := every key known
  exact ⟨given, tight, by simpa using ascii, unsplit, undivided⟩

/-! ## Reading items -/

section Read

variable {key value text : Text}

theorem Padded.notMem {b : UInt8} (shown : ¬Text.IsBlankByte b) (padded : Padded value text)
    (absent : b ∉ value) : b ∉ text := by
  obtain ⟨before, after, white, white', rfl⟩ := padded
  simp only [List.mem_append, not_or]
  exact ⟨⟨fun member => shown (white.isBlankByte b member), absent⟩,
    fun member => shown (white'.isBlankByte b member)⟩

theorem Padded.trim_eq (padded : Padded value text) (tight : Tight value) :
    Text.trim text = value := by
  obtain ⟨before, after, white, white', rfl⟩ := padded
  exact Text.trim_padded white white' tight

theorem read?_of_white (white : White text) : Item.read? text = none := by
  have padded : Padded [] text := ⟨text, [], white, Text.white_nil, by simp⟩
  rw [Item.read?, padded.trim_eq (by decide)]
  rfl

theorem read?_of_padded (isKey : IsKey key) (padded : Padded key text) :
    Item.read? text = some { key, value := none } := by
  have trimmed : Text.trim key = key := by
    rw [← padded.trim_eq isKey.tight, Text.trim_trim]
  simp only [Item.read?, padded.trim_eq isKey.tight, Text.cut_of_notMem isKey.unsplit]
  rw [if_neg (by simpa using isKey.given), trimmed, Option.map_none]

theorem IsKey.whole_reverse (isKey : IsKey key) : Text.Whole Text.unitsBackward key.reverse := by
  cases reversed : key.reverse with
  | nil => exact Text.LongBlanks.Reads.whole_nil
  | cons b rest =>
    have member : b ∈ key := List.mem_reverse.mp (reversed ▸ List.mem_cons_self)
    exact Text.reads_backward.whole_cons (isKey.ascii b member) rest

/-- An item stays one when the white space around it is taken away.  Where there is no value,
the white space before it goes as well. -/
theorem Keyed.trim (keyed : Keyed key value text) (isKey : IsKey key) (tight : Tight value) :
    Keyed key value (Text.trim text) := by
  obtain ⟨_, _, ⟨before, gap, white, gapWhite, rfl⟩, ⟨gap', after, gapWhite', white', rfl⟩, rfl⟩ :=
    keyed
  have left : Padded key (key ++ gap) := ⟨[], gap, Text.white_nil, gapWhite, rfl⟩
  by_cases empty : value = []
  · have inner : Tight (key ++ gap ++ [61]) := by
      apply isKey.tight.append (by decide) isKey.given (List.cons_ne_nil _ _)
      · exact Text.whole_white_append gapWhite (Text.reads_forward.whole_cons (by decide) _)
      · exact Text.whole_reverse_white_append gapWhite isKey.whole_reverse
    refine ⟨_, [], left, ⟨[], [], Text.white_nil, Text.white_nil, by simp [empty]⟩, ?_⟩
    rw [← Text.trim_padded white (gapWhite'.append white') inner]
    simp [empty]
  · have inner : Tight (key ++ (gap ++ 61 :: gap') ++ value) := by
      apply isKey.tight.append tight isKey.given empty
      · rw [List.append_assoc]
        exact Text.whole_white_append gapWhite (Text.reads_forward.whole_cons (by decide) _)
      · rw [List.reverse_append, List.reverse_cons, List.append_assoc, List.append_assoc]
        exact Text.whole_reverse_white_append gapWhite'
          (Text.reads_backward.whole_cons (by decide) _)
    refine ⟨_, gap' ++ value, left, ⟨gap', [], gapWhite', Text.white_nil, by simp⟩, ?_⟩
    have trimmed := Text.trim_padded white white' inner
    simpa using trimmed

theorem read?_of_keyed (isKey : IsKey key) (tight : Tight value) (keyed : Keyed key value text) :
    Item.read? text = some { key, value := some value } := by
  obtain ⟨left, right, padded, padded', trimmed⟩ := keyed.trim isKey tight
  have unsplit : 61 ∉ left := padded.notMem (by decide) isKey.unsplit
  simp only [Item.read?, trimmed, Text.cut_append_cons unsplit]
  rw [if_neg (by simp), padded.trim_eq isKey.tight, Option.map_some, padded'.trim_eq tight]

theorem key_of_read?_eq_some {item : Item} (read : Item.read? text = some item) :
    item.key = Text.trim (text.takeWhile (· != 61)) := by
  unfold Item.read? at read
  simp only at read
  split at read
  · contradiction
  · cases read
    rw [Text.cut_fst, Text.trim_takeWhile_trim (by decide)]

end Read

/-! ## Reading parameters -/

theorem result_set_unknown {item : Item} (unknown : item.key ∉ keys) (options : Options) :
    (set options item).result = .ok options := by
  simp only [keys, List.mem_cons, List.not_mem_nil, not_or, or_false] at unknown
  obtain ⟨notTarget, notPackages, notFlat, notLang, notLanguage⟩ := unknown
  simp [set, notTarget, notPackages, notFlat, notLang, notLanguage]

namespace Written

variable {text : Text} {setting : Option Setting}

theorem undivided (written : Written text setting) : 44 ∉ text := by
  have inKeyed {key value : Text} (known : key ∈ keys) (bounded : Bounded value)
      (keyed : Keyed key value text) : 44 ∉ text := by
    obtain ⟨left, right, padded, padded', rfl⟩ := keyed
    have inLeft := padded.notMem (by decide) (isKey_of_mem_keys known).undivided
    have inRight := padded'.notMem (by decide) bounded.undivided
    simp [inLeft, inRight]
  cases written with
  | blank white => exact fun member => absurd (white.isBlankByte 44 member) (by decide)
  | other undivided unknown => exact undivided
  | targetPackage given bounded keyed => exact inKeyed (by decide) bounded keyed
  | packages bounded keyed => exact inKeyed (by decide) bounded keyed
  | flatPack among keyed => exact inKeyed (by decide) (bounded_of_mem_flagWords among) keyed
  | flat padded => exact padded.notMem (by decide) (by decide)
  | language named bounded keyed =>
    rcases named with rfl | rfl <;> exact inKeyed (by decide) bounded keyed

/-- An item that is written as it should be is read as the setting that it stands for. -/
theorem result_items (written : Written text setting) (options : Options) :
    (([text].filterMap Item.read?).foldlM set options).result
      = .ok ([setting].reduceOption.foldl apply options) := by
  have one {item : Item} (read : Item.read? text = some item) :
      (([text].filterMap Item.read?).foldlM set options).result = (set options item).result := by
    simp [read]
  have keyed {key value : Text} (known : key ∈ keys) (bounded : Bounded value)
      (keyed : Keyed key value text) :=
    one (read?_of_keyed (isKey_of_mem_keys known) bounded.tight keyed)
  cases written with
  | blank white => simp [read?_of_white white]
  | other undivided unknown =>
    cases read : Item.read? text with
    | none => simp [read]
    | some item =>
      rw [← key_of_read?_eq_some read] at unknown
      rw [one read, result_set_unknown unknown]
      rfl
  | targetPackage given bounded written =>
    rw [keyed (by decide) bounded written]
    simp [set, given]
    rfl
  | packages bounded written =>
    rw [keyed (by decide) bounded written]
    rfl
  | flatPack among written =>
    rw [keyed (by decide) (bounded_of_mem_flagWords among) written]
    simp [set, readBool?_of_mem_flagWords among]
    rfl
  | flat padded =>
    rw [one (read?_of_padded (isKey_of_mem_keys (by decide)) padded)]
    rfl
  | language named bounded written =>
    rcases named with rfl | rfl
    all_goals
      rw [keyed (by decide) bounded written]
      rfl

end Written

/-- Items are read one after the other. -/
theorem result_items_of_written {texts : List Text} {given : List (Option Setting)}
    (written : List.Forall₂ Written texts given) (options : Options) :
    ((texts.filterMap Item.read?).foldlM set options).result
      = .ok (given.reduceOption.foldl apply options) := by
  induction written generalizing options with
  | nil => rfl
  | @cons text setting texts given first rest ih =>
    rw [← List.singleton_append, List.filterMap_append, List.foldlM_append, Logged.result_bind,
      first.result_items, Result.ok_bind, ih, ← List.singleton_append (l := given),
      List.reduceOption_append, List.foldl_append]

theorem items_join {texts : List Text} (undivided : ∀ text ∈ texts, 44 ∉ text) :
    items (Text.join "," texts) = texts.filterMap Item.read? := by
  by_cases empty : texts = []
  · subst empty
    rfl
  · rw [items, show Text.ofString "," = [44] from rfl, Text.splitOn_join empty undivided]

theorem result_ofParameter {texts : List Text} {given : List (Option Setting)}
    (written : List.Forall₂ Written texts given) :
    (ofParameter (Text.join "," texts)).result = .ok (ofSettings given.reduceOption) := by
  have undivided : ∀ text ∈ texts, 44 ∉ text := by
    have each := written.imp fun _ _ item => And.intro item.undivided item
    exact ((List.forall₂_and_left _ _).mp each).1
  rw [ofParameter, items_join undivided, result_items_of_written written, foldl_apply_standard]

/-- Options survive being written out in a parameter.  Whatever the order of the items, the
blank and foreign ones among them and the white space in them, the last setting of each
option counts; items that set every option once give just these options, and a plugin with
such a parameter answers as a run with the options does. -/
theorem options_written_in_parameter {texts : List Text} {given : List (Option Setting)}
    (written : List.Forall₂ Written texts given) :
    (ofParameter (Text.join "," texts)).result = .ok (ofSettings given.reduceOption) ∧
    (∀ options : Options, given.reduceOption.Perm options.settings →
      ofSettings given.reduceOption = options) ∧
    ∀ (languages : Languages) (requested : List Text) (files : List FileDescriptor),
      (Plugin.answer languages { requested, parameter := Text.join "," texts, files }).Tells
        (((RunRequest.run { files, requested, options := ofSettings given.reduceOption }
          languages).result).mapError RunError.message) := by
  have result := result_ofParameter written
  constructor
  · exact result
  constructor
  · intro options perm
    exact ofSettings_of_perm perm
  · intro languages requested files
    have told := (Plugin.answer_tells languages
      { requested, parameter := Text.join "," texts, files }).1
    simp only [Plugin.outcome, result] at told
    exact told

theorem options_written_in_parameter_once :
    (ofParameter (Text.join ","
      [" lang =\t x", "", "speed=1", "target_package= a=b ", "flat_pack", " packages = "])).result
      = .ok { targetPackage := "a=b", packages := "", flatPack := true, language := "x" } := by
  have written : List.Forall₂ Written
      [" lang =\t x", "", "speed=1", "target_package= a=b ", "flat_pack", " packages = "]
      [some (.language "x"), none, none, some (.targetPackage "a=b"), some (.flatPack true),
        some (.packages "")] := by
    have space : White " " := ⟨[' '], by simp [Text.spaces], rfl⟩
    have tab : White "\t " := ⟨['\t', ' '], by simp [Text.spaces], rfl⟩
    apply List.Forall₂.cons
    · exact .language (.inl rfl) ⟨by decide, by decide⟩
        ⟨" lang ", "\t x", ⟨" ", " ", space, space, rfl⟩,
          ⟨"\t ", "", tab, Text.white_nil, rfl⟩, rfl⟩
    apply List.Forall₂.cons
    · exact .blank Text.white_nil
    apply List.Forall₂.cons
    · exact .other (by decide) (by decide +kernel)
    apply List.Forall₂.cons
    · exact .targetPackage (by decide) ⟨by decide, by decide⟩
        ⟨"target_package", " a=b ", ⟨"", "", Text.white_nil, Text.white_nil, rfl⟩,
          ⟨" ", " ", space, space, rfl⟩, rfl⟩
    apply List.Forall₂.cons
    · exact .flat ⟨"", "", Text.white_nil, Text.white_nil, rfl⟩
    apply List.Forall₂.cons
    · exact .packages ⟨by decide, by decide⟩
        ⟨" packages ", " ", ⟨" ", " ", space, space, rfl⟩,
          ⟨" ", "", space, Text.white_nil, rfl⟩, rfl⟩
    exact .nil
  obtain ⟨result, each, -⟩ := options_written_in_parameter written
  rw [each { targetPackage := "a=b", packages := "", flatPack := true, language := "x" }
    (by decide)] at result
  exact result

end Protoclass.Options
