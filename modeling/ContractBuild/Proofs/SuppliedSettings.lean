import ContractBuild.CommandLine
import ContractBuild.Compiler.Programs
import Mathlib.Data.List.Basic

/-! The compiler's version and the EVM's, from the configuration and the command line to the commands.
The configuration refuses an empty text and the command line does not, so an empty text there opens what
the configuration sets. Main statement: what a build and a status go by, and that a value that is
supplied is in force unless it is the empty text of an override. -/

namespace ContractBuild

open Toml (Value)

namespace Config

def compilerKeys : List String := ["version", "optimize", "runs", "evm_version", "minify_source"]

/-- A text has a section on the compiler, and the section has a value under the key. -/
def Gives (text key : String) (v : Value) : Prop :=
  ∃ tables part fields, Toml.parse? text = some tables ∧ tables.lookup "compiler" = some part ∧
    fields? compilerKeys part = some fields ∧ fields.lookup key = some v

inductive TextSetting where
  | version
  | evmVersion

namespace TextSetting

def key : TextSetting → String
  | .version => "version"
  | .evmVersion => "evm_version"

def override : TextSetting → CommandLine.Overrides → Option String
  | .version, o => o.version
  | .evmVersion, o => o.evmVersion

def value : TextSetting → Settings → Option String
  | .version, s => s.version
  | .evmVersion, s => s.evmVersion

def effective : TextSetting → Settings → Option String
  | .version, s => s.effectiveVersion
  | .evmVersion, s => s.effectiveEvmVersion

variable {k : TextSetting} {s : Settings}

theorem effective_eq (k : TextSetting) (s : Settings) :
    k.effective s = Settings.nonempty (k.value s) := by
  cases k <;> rfl

theorem value_apply (k : TextSetting) (o : CommandLine.Overrides) (s : Settings) :
    k.value (o.apply s) = (k.override o <|> k.value s) := by
  cases k <;> rfl

end TextSetting

section Reading

variable {text : String} {c : Config} {k : TextSetting}

theorem field?_text_eq_some {fields : List (String × Value)} {key : String} {setting : Option String}
    (h : field? fields key (fun v => (text? v).map some) none = some setting) :
    fields.lookup key = none ∧ setting = none ∨
      ∃ w, fields.lookup key = some (.text w) ∧ setting = some w := by
  rw [field?] at h
  cases hlookup : fields.lookup key with
  | none =>
    rw [hlookup] at h
    exact Or.inl ⟨rfl, (Option.some.inj h).symm⟩
  | some v =>
    rw [hlookup] at h
    obtain ⟨w, hw, rfl⟩ := Option.map_eq_some_iff.1 h
    cases v with
    | text w' =>
      cases hw
      exact Or.inr ⟨w, rfl, rfl⟩
    | _ => cases hw

theorem settingsOf?_eq_some {part : Value} {s : Settings} (h : settingsOf? (some part) = some s)
    (k : TextSetting) : ∃ fields, fields? compilerKeys part = some fields ∧
      field? fields k.key (fun v => (text? v).map some) none = some (k.value s) := by
  obtain ⟨fields, hfields, h⟩ := Option.bind_eq_some_iff.1 h
  obtain ⟨version, hversion, h⟩ := Option.bind_eq_some_iff.1 h
  obtain ⟨optimize, -, h⟩ := Option.bind_eq_some_iff.1 h
  obtain ⟨runs, -, h⟩ := Option.bind_eq_some_iff.1 h
  obtain ⟨evmVersion, hevm, h⟩ := Option.bind_eq_some_iff.1 h
  obtain ⟨minifySource, -, h⟩ := Option.bind_eq_some_iff.1 h
  cases h
  refine ⟨fields, hfields, ?_⟩
  cases k with
  | version => exact hversion
  | evmVersion => exact hevm

theorem parse_ok (h : parse text = .ok c) :
    ∃ tables, Toml.parse? text = some tables ∧ settingsOf? (tables.lookup "compiler") = some c.settings ∧
      c.emptyKey? = none := by
  rw [parse] at h
  cases hread : (Toml.parse? text).bind ofTables? with
  | none =>
    rw [hread] at h
    cases h
  | some c' =>
    rw [hread] at h
    dsimp only at h
    cases hempty : c'.emptyKey? with
    | some key =>
      rw [hempty] at h
      cases h
    | none =>
      rw [hempty] at h
      cases h
      obtain ⟨tables, htables, hread⟩ := Option.bind_eq_some_iff.1 hread
      obtain ⟨name, -, hread⟩ := Option.bind_eq_some_iff.1 hread
      obtain ⟨settings, hsettings, hread⟩ := Option.bind_eq_some_iff.1 hread
      cases hread
      exact ⟨tables, htables, hsettings, hempty⟩

theorem emptyKey?_eq_none_iff : c.emptyKey? = none ↔ c.name ≠ some "" ∧
    c.settings.version ≠ some "" ∧ c.settings.evmVersion ≠ some "" := by
  rw [emptyKey?]
  by_cases hname : c.name = some "" <;> by_cases hversion : c.settings.version = some "" <;>
    by_cases hevm : c.settings.evmVersion = some "" <;> simp [hname, hversion, hevm]

theorem value_ne_empty (h : c.emptyKey? = none) (k : TextSetting) : k.value c.settings ≠ some "" := by
  obtain ⟨-, hversion, hevm⟩ := emptyKey?_eq_none_iff.1 h
  cases k with
  | version => exact hversion
  | evmVersion => exact hevm

theorem value_of_gives (h : parse text = .ok c) {v : Value} (hv : Gives text k.key v) :
    ∃ w, v = .text w ∧ w ≠ "" ∧ k.value c.settings = some w := by
  obtain ⟨tables, htables, hsettings, hempty⟩ := parse_ok h
  obtain ⟨tables', part, fields, htables', hpart, hfields, hlookup⟩ := hv
  cases htables.symm.trans htables'
  rw [hpart] at hsettings
  obtain ⟨fields', hfields', hfield⟩ := settingsOf?_eq_some hsettings k
  cases hfields.symm.trans hfields'
  rcases field?_text_eq_some hfield with ⟨hnone, -⟩ | ⟨w, hw, hvalue⟩
  · cases hlookup.symm.trans hnone
  · cases hlookup.symm.trans hw
    refine ⟨w, rfl, ?_, hvalue⟩
    rintro rfl
    exact value_ne_empty hempty k hvalue

theorem gives_of_value (h : parse text = .ok c) {w : String} (hw : k.value c.settings = some w) :
    Gives text k.key (.text w) := by
  obtain ⟨tables, htables, hsettings, -⟩ := parse_ok h
  cases hpart : tables.lookup "compiler" with
  | none =>
    rw [hpart] at hsettings
    rw [← Option.some.inj hsettings] at hw
    cases k <;> cases hw
  | some part =>
    rw [hpart] at hsettings
    obtain ⟨fields, hfields, hfield⟩ := settingsOf?_eq_some hsettings k
    rcases field?_text_eq_some hfield with ⟨-, hnone⟩ | ⟨w', hlookup, hvalue⟩
    · cases hw.symm.trans hnone
    · cases hw.symm.trans hvalue
      exact ⟨tables, part, fields, htables, hpart, hfields, hlookup⟩

end Reading

/-- The override, else what the text gives. -/
structure TextSetting.Honoured (k : TextSetting) (text : String) (o : CommandLine.Overrides)
    (value : Option String) : Prop where
  override : ∀ v, k.override o = some v → value = some v
  given : k.override o = none → ∀ v, Gives text k.key v → ∃ w, v = .text w ∧ value = some w
  unset : value = none → k.override o = none ∧ ∀ v, ¬ Gives text k.key v

theorem TextSetting.effective_of_override {k : TextSetting} {o : CommandLine.Overrides} {v : String}
    (h : k.override o = some v) (s : Settings) :
    k.effective (o.apply s) = if v = "" then none else some v := by
  rw [effective_eq, value_apply, h]
  show Settings.nonempty (some v) = _
  rw [Settings.nonempty, Option.filter_some]
  by_cases hempty : v = ""
  · rw [if_neg (by rw [hempty]; decide), if_pos hempty]
  · rw [if_pos (bne_iff_ne.2 hempty), if_neg hempty]

theorem effective_of_no_override {text : String} {c : Config} (h : parse text = .ok c)
    {k : TextSetting} {o : CommandLine.Overrides} (hover : k.override o = none) :
    k.effective (o.apply c.settings) = k.value c.settings := by
  obtain ⟨-, -, -, hempty⟩ := parse_ok h
  rw [TextSetting.effective_eq, TextSetting.value_apply, hover]
  show Settings.nonempty (k.value c.settings) = _
  cases hset : k.value c.settings with
  | none => rfl
  | some w =>
    have hne : w ≠ "" := by
      rintro rfl
      exact value_ne_empty hempty k hset
    rw [Settings.nonempty, Option.filter_some, if_pos (bne_iff_ne.2 hne)]

theorem honoured_iff {text : String} {c : Config} (h : parse text = .ok c) (k : TextSetting)
    (o : CommandLine.Overrides) :
    (k.Honoured text o (k.effective (o.apply c.settings)) ↔ k.override o ≠ some "") ∧
      (k.override o = some "" → k.effective (o.apply c.settings) = none) := by
  cases hover : k.override o with
  | some v =>
    rw [TextSetting.effective_of_override hover]
    by_cases hempty : v = ""
    · rw [if_pos hempty]
      refine ⟨iff_of_false (fun hin => ?_) (fun hne => hne (by rw [hempty])), fun _ => rfl⟩
      exact absurd (hin.override v hover) nofun
    · rw [if_neg hempty]
      have hne : some v ≠ some "" := fun he => hempty (Option.some.inj he)
      refine ⟨iff_of_true ⟨fun w hw => hover.symm.trans hw, fun hnone => ?_, nofun⟩ hne,
        fun he => absurd he hne⟩
      exact absurd (hover.symm.trans hnone) nofun
  | none =>
    rw [effective_of_no_override h hover]
    refine ⟨iff_of_true ⟨fun v hv => absurd (hover.symm.trans hv) nofun, fun _ v hv => ?_,
      fun hopen => ⟨hover, fun v hv => ?_⟩⟩ nofun, nofun⟩
    · obtain ⟨w, hw, -, hset⟩ := value_of_gives h hv
      exact ⟨w, hw, hset⟩
    · obtain ⟨w, -, -, hset⟩ := value_of_gives h hv
      cases hopen.symm.trans hset

theorem supplied_of_effective {text : String} {c : Config} (h : parse text = .ok c) {k : TextSetting}
    {o : CommandLine.Overrides} {w : String} (hw : k.effective (o.apply c.settings) = some w) :
    k.override o = some w ∨ k.override o = none ∧ Gives text k.key (.text w) := by
  cases hover : k.override o with
  | some v =>
    rw [TextSetting.effective_of_override hover] at hw
    split at hw
    · cases hw
    · exact Or.inl hw
  | none =>
    rw [effective_of_no_override h hover] at hw
    exact Or.inr ⟨rfl, gives_of_value h hw⟩

end Config

namespace CommandLine

section Commands

variable {project : Option String} {t : FileTree} {root : Path} {text : String} {config : Config}

theorem rootAndConfig_of_text (hroot : projectRoot project t = .ok root)
    (htext : t.text (root.joinText Config.fileName) = .ok text) : rootAndConfig project t =
      ((Config.parse text).mapError fun p => .project (.config p)).map (root, ·) := by
  have hfile : t.isFile (root.joinText Config.fileName) = true := by
    rw [FileTree.text, FileTree.content] at htext
    rw [FileTree.isFile]
    cases hfind : t.find (root.joinText Config.fileName) with
    | error e =>
      rw [hfind] at htext
      cases htext
    | ok found =>
      obtain ⟨l, _ | content⟩ := found
      · rw [hfind] at htext
        cases htext
      · rfl
  have hload : Config.load root t = Config.parse text := by
    rw [Config.load, if_pos hfile, htext]
  rw [rootAndConfig, hroot]
  show (do
    let config ← (Config.load root t).mapError fun p => Failure.project (.config p)
    return (root, config)) = _
  rw [hload]
  cases Config.parse text <;> rfl

end Commands

/-- An empty override leaves the setting open, whatever the configuration says. -/
theorem supplied_settings_in_force_iff {project : Option String} {t : FileTree} {root : Path}
    {text : String} (hroot : projectRoot project t = .ok root)
    (htext : t.text (root.joinText Config.fileName) = .ok text) (verbose : Bool) (compiler : String)
    (overrides : Overrides) (programs : Programs) :
    (∃ problem, Config.parse text = .error problem ∧
      build project verbose compiler overrides programs t =
        { failure? := some (.project (.config problem)), tree := t } ∧
      status project overrides t =
        { failure? := some (.project (.config problem)), tree := t }) ∨
    ∃ config, Config.parse text = .ok config ∧
      let settings := overrides.apply config.settings
      build project verbose compiler overrides programs t =
        buildWith root config.name settings verbose compiler programs t ∧
      status project overrides t = statusWith root config.name settings t ∧
      ∀ k : Config.TextSetting,
        (k.Honoured text overrides (k.effective settings) ↔ k.override overrides ≠ some "") ∧
        (k.override overrides = some "" → k.effective settings = none) ∧
        ∀ w, k.effective settings = some w →
          k.override overrides = some w ∨
            k.override overrides = none ∧ Config.Gives text k.key (.text w) := by
  have hread := rootAndConfig_of_text hroot htext
  cases hparse : Config.parse text with
  | error problem =>
    rw [hparse] at hread
    refine Or.inl ⟨problem, rfl, ?_, ?_⟩
    · rw [build, hread]
      rfl
    · rw [status, hread]
      rfl
  | ok config =>
    rw [hparse] at hread
    refine Or.inr ⟨config, rfl, build_eq_buildWith hread, status_eq_statusWith hread,
      fun k => ?_⟩
    obtain ⟨hhonoured, hempty⟩ := Config.honoured_iff hparse k overrides
    exact ⟨hhonoured, hempty, fun w hw => Config.supplied_of_effective hparse hw⟩

namespace SampleConfig

def text : String := "[compiler]\nversion = \"0.8.24\"\n"

def tree : FileTree := ⟨[(["p"], .directory), (["p", "kiln.toml"], .file (Text.bytes text))], []⟩

def config : Config := { settings := { version := some "0.8.24" } }

theorem parsed : Config.parse text = .ok config := by decide +kernel

end SampleConfig

open SampleConfig in
theorem supplied_settings_in_force_of_both :
    projectRoot (some "/p") tree = .ok (.absolute ["p"]) ∧
    tree.text ((Path.absolute ["p"]).joinText Config.fileName) = .ok text ∧
    Config.TextSetting.version.Honoured text { evmVersion := some "paris" } (some "0.8.24") ∧
    Config.TextSetting.evmVersion.Honoured text { evmVersion := some "paris" } (some "paris") := by
  have hroot : projectRoot (some "/p") tree = .ok (.absolute ["p"]) := by decide +kernel
  have htext : tree.text ((Path.absolute ["p"]).joinText Config.fileName) = .ok text := by
    decide +kernel
  rcases supplied_settings_in_force_iff hroot htext false "cc" { evmVersion := some "paris" }
    Programs.known with ⟨problem, hproblem, -⟩ | ⟨config', hparse, -, -, hall⟩
  · cases hproblem.symm.trans parsed
  · cases hparse.symm.trans parsed
    exact ⟨hroot, htext, (hall .version).1.2 (by decide), (hall .evmVersion).1.2 (by decide)⟩

open SampleConfig in
/-- The version is no longer held against what was compiled with another one. -/
theorem empty_override_opens_version :
    Invocation.ofArguments ["status", "--compiler-version="] =
      .ok { action := .status { version := some "" } } ∧
    Config.parse text = .ok config ∧
    (({ version := some "" } : Overrides).apply config.settings).effectiveVersion = none ∧
    ¬ Config.TextSetting.version.Honoured text { version := some "" } none ∧
    config.settings.mismatch? ⟨"0.8.23", true, 200, none⟩ = some .version ∧
    (({ version := some "" } : Overrides).apply config.settings).mismatch?
      ⟨"0.8.23", true, 200, none⟩ = none := by
  refine ⟨by decide +kernel, parsed, by decide, fun hhonoured => ?_, by decide +kernel, by decide +kernel⟩
  exact absurd (hhonoured.override "" rfl) nofun

end CommandLine
end ContractBuild
