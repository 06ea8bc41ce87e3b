import ContractBuild.Proofs.LeastPaths
import ContractBuild.Proofs.OpenSettings
import Mathlib.Data.List.TakeWhile

/-! How a name stands, whatever the sources, the artifacts and the settings. A name is looked up among
the paths first, and among the declared units only then; so a name that no source declares can be fresh,
if it is the path of a source. Main statement: how any name stands, and that it stands as a unit unless
it is a path. -/

namespace ContractBuild

open Source

/-- One `v` in front is left out, and so is all from the first plus sign on. -/
def VersionCore (version core : String) : Prop :=
  ∃ front rest, version.toList = front ++ (core.toList ++ rest) ∧
    (front = ['v'] ∨ front = [] ∧ version.toList.head? ≠ some 'v') ∧
    '+' ∉ core.toList ∧ (rest = [] ∨ rest.head? = some '+')

theorem takeWhile_ne_plus_iff {cs core : List Char} : cs.takeWhile (· != '+') = core ↔
    ∃ rest, cs = core ++ rest ∧ '+' ∉ core ∧ (rest = [] ∨ rest.head? = some '+') := by
  constructor
  · rintro rfl
    refine ⟨cs.dropWhile (· != '+'), List.takeWhile_append_dropWhile.symm, fun hmem => ?_, ?_⟩
    · have hplus := List.mem_takeWhile_imp hmem
      cases hplus
    · cases hrest : cs.dropWhile (· != '+') with
      | nil => exact Or.inl rfl
      | cons c rest =>
        have hc := List.head?_dropWhile_not (· != '+') cs
        rw [hrest] at hc
        exact Or.inr (congrArg some (by simpa using hc))
  · rintro ⟨rest, rfl, hcore, hrest⟩
    have hpos : ∀ c ∈ core, (c != '+') = true := by
      intro c hc
      rw [bne_iff_ne]
      rintro rfl
      exact hcore hc
    rw [List.takeWhile_append_of_pos hpos]
    cases rest with
    | nil => rw [List.takeWhile_nil, List.append_nil]
    | cons c rest =>
      cases Option.some.inj (hrest.resolve_left nofun)
      rw [List.takeWhile_cons_of_neg (by decide), List.append_nil]

theorem versionCore_iff {version core : String} :
    VersionCore version core ↔ normalizeVersion version = core := by
  rw [normalizeVersion, ← String.toList_inj, String.toList_ofList, VersionCore]
  generalize version.toList = cs
  rw [takeWhile_ne_plus_iff]
  constructor
  · rintro ⟨front, rest, hcs, rfl | ⟨rfl, hfirst⟩, hcore, hrest⟩
    · exact ⟨rest, by rw [hcs]; rfl, hcore, hrest⟩
    · exact ⟨rest, by rw [if_neg hfirst]; exact hcs, hcore, hrest⟩
  · rintro ⟨rest, hcs, hcore, hrest⟩
    split at hcs
    · rename_i hfirst
      obtain ⟨tail, rfl⟩ := List.head?_eq_some_iff.1 hfirst
      exact ⟨['v'], rest, congrArg ('v' :: ·) hcs, Or.inl rfl, hcore, hrest⟩
    · rename_i hfirst
      exact ⟨[], rest, hcs, Or.inr ⟨rfl, hfirst⟩, hcore, hrest⟩

namespace Settings

/-- Every setting that is set agrees with the recorded one; an empty text sets nothing. -/
structure AgreeWith (s : Settings) (recorded : RecordedSettings) : Prop where
  version : ∀ v, s.version = some v → v ≠ "" →
    ∃ core, VersionCore v core ∧ VersionCore recorded.version core
  optimize : ∀ b, s.optimize = some b → b = recorded.optimize
  runs : ∀ n, s.runs = some n → n = recorded.runs
  evmVersion : ∀ v, s.evmVersion = some v → v ≠ "" → recorded.evmVersion = some v

theorem agrees_iff {α : Type} {asked : Option α} {holds : α → Bool} :
    agrees asked holds = true ↔ ∀ v, asked = some v → holds v = true := by
  cases asked with
  | none => exact iff_of_true rfl nofun
  | some v => exact ⟨fun h w hw => Option.some.inj hw ▸ h, fun h => h v rfl⟩

theorem nonempty_eq_some_iff {s : Option String} {v : String} :
    nonempty s = some v ↔ s = some v ∧ v ≠ "" := by
  rw [nonempty, Option.filter_eq_some_iff, bne_iff_ne]

theorem mismatch?_eq_none_iff {s : Settings} {recorded : RecordedSettings} :
    s.mismatch? recorded = none ↔ s.AgreeWith recorded := by
  have hcore : ∀ v, (normalizeVersion v == normalizeVersion recorded.version) = true ↔
      ∃ core, VersionCore v core ∧ VersionCore recorded.version core := by
    intro v
    simp only [versionCore_iff, beq_iff_eq, exists_eq_left']
    exact eq_comm
  have hall : s.mismatch? recorded = none ↔ ∀ k, s.accepts recorded k = true := by
    rw [mismatch?_eq_find?, List.find?_eq_none]
    refine ⟨fun h k => ?_, fun h k _ => by simp [h k]⟩
    have hk := h k (by cases k <;> decide)
    simpa using hk
  rw [hall]
  constructor
  · intro h
    refine ⟨fun v hv hne => ?_, fun b hb => ?_, fun n hn => ?_, fun v hv hne => ?_⟩
    · exact (hcore v).1 (agrees_iff.1 (h .version) v (nonempty_eq_some_iff.2 ⟨hv, hne⟩))
    · exact beq_iff_eq.1 (agrees_iff.1 (h .optimize) b hb)
    · exact beq_iff_eq.1 (agrees_iff.1 (h .runs) n hn)
    · exact beq_iff_eq.1 (agrees_iff.1 (h .evmVersion) v (nonempty_eq_some_iff.2 ⟨hv, hne⟩))
  · intro h k
    cases k with
    | version =>
      refine agrees_iff.2 fun v hv => (hcore v).2 ?_
      exact h.version v (nonempty_eq_some_iff.1 hv).1 (nonempty_eq_some_iff.1 hv).2
    | optimize => exact agrees_iff.2 fun b hb => beq_iff_eq.2 (h.optimize b hb)
    | runs => exact agrees_iff.2 fun n hn => beq_iff_eq.2 (h.runs n hn)
    | evmVersion =>
      refine agrees_iff.2 fun v hv => beq_iff_eq.2 ?_
      exact h.evmVersion v (nonempty_eq_some_iff.1 hv).1 (nonempty_eq_some_iff.1 hv).2

end Settings

namespace SourceSet

def Declares (files : NameMap String) (u : String) : Prop :=
  ∃ path text, files.get? path = some text ∧ ∃ d ∈ declarations (Text.bytes text), d.name = u

/-- The text of the file that a unit is compiled from. -/
def IsCompiledFrom (files : NameMap String) (u text : String) : Prop :=
  ∃ path, (ofFiles files).path? u = some path ∧ files.get? path = some text

variable {files : NameMap String} {u text : String}

theorem text?_eq_some_iff : (ofFiles files).text? u = some text ↔
    files.get? u = some text ∨ files.contains u = false ∧ IsCompiledFrom files u text := by
  have hfiles : (ofFiles files).files = files := rfl
  rw [text?, hfiles, NameMap.contains]
  cases files.get? u with
  | some t => simp
  | none => simp [IsCompiledFrom, Option.bind_eq_some_iff]

theorem text?_eq_none_iff : (ofFiles files).text? u = none ↔
    ¬ Declares files u ∧ files.contains u = false := by
  have hdeclares : Declares files u ↔ ∃ text, IsCompiledFrom files u text := by
    rw [Declares, ← containsUnit_ofFiles_iff, containsUnit_iff]
    constructor
    · rintro ⟨path, hpath⟩
      obtain ⟨text, htext, -⟩ := declared_at_path hpath
      exact ⟨text, path, hpath, htext⟩
    · rintro ⟨text, path, hpath, -⟩
      exact ⟨path, hpath⟩
  rw [Option.eq_none_iff_forall_ne_some, hdeclares]
  simp only [ne_eq, text?_eq_some_iff]
  constructor
  · intro h
    have hpath : files.contains u = false := by
      rw [NameMap.contains_eq_false_iff, Option.eq_none_iff_forall_ne_some]
      exact fun text htext => h text (Or.inl htext)
    exact ⟨fun ⟨text, hfrom⟩ => h text (Or.inr ⟨hpath, hfrom⟩), hpath⟩
  · rintro ⟨hnone, hpath⟩ text (htext | ⟨-, hfrom⟩)
    · rw [NameMap.contains_eq_false_iff.1 hpath] at htext
      cases htext
    · exact hnone ⟨text, hfrom⟩

end SourceSet

section Verdicts

variable {files : NameMap String} {store : Store} {settings : Settings} {u text : String} {a : Artifact}

theorem check_eq_missing_iff : check (.ofFiles files) store settings u = .missing ↔
    store.contains u = false ∨ ¬ SourceSet.Declares files u ∧ files.contains u = false := by
  rw [← SourceSet.text?_eq_none_iff, Store.contains, NameMap.contains_eq_false_iff, check,
    SourceSet.fingerprint?, Store.get?]
  cases store.entries.get? u with
  | none => exact iff_of_true rfl (Or.inl rfl)
  | some a =>
    cases (SourceSet.ofFiles files).text? u with
    | none => exact iff_of_true rfl (Or.inr rfl)
    | some text =>
      refine iff_of_false ?_ (by simp)
      dsimp only [Option.map_some]
      intro h
      split at h
      · cases h
      · split at h <;> cases h

structure Staleness.DecidedBy (standing : Staleness) (settings : Settings) (u text : String)
    (a : Artifact) : Prop where
  sourceChanged : standing = .sourceChanged ↔
    fingerprintText text u settings.minifySource ≠ a.fingerprint
  fresh : standing = .fresh ↔
    fingerprintText text u settings.minifySource = a.fingerprint ∧ settings.AgreeWith a.compiler

theorem check_decidedBy (ha : store.get? u = some a)
    (htext : (SourceSet.ofFiles files).text? u = some text) :
    (check (.ofFiles files) store settings u).DecidedBy settings u text a := by
  constructor
  · rw [check, ha, SourceSet.fingerprint?, htext]
    dsimp only [Option.map_some]
    split
    · rename_i hne
      exact iff_of_true rfl hne
    · rename_i heq
      refine iff_of_false (fun h => ?_) heq
      split at h <;> cases h
  · rw [check_eq_fresh_iff, ha, SourceSet.fingerprint?, htext, ← Settings.mismatch?_eq_none_iff]
    simp

end Verdicts

/-- A name is taken for a path before it is taken for a unit. -/
theorem standing_by_text (files : NameMap String) (store : Store) (settings : Settings) (u : String) :
    let standing := check (.ofFiles files) store settings u
    (standing = .missing ↔
      store.contains u = false ∨ ¬ SourceSet.Declares files u ∧ files.contains u = false) ∧
    (standing ≠ .missing → ∃ a text, store.get? u = some a ∧
      (files.get? u = some text ∨
        files.contains u = false ∧ SourceSet.IsCompiledFrom files u text) ∧
      standing.DecidedBy settings u text a) ∧
    (files.contains u = false →
      (standing = .missing ↔ store.contains u = false ∨ ¬ SourceSet.Declares files u) ∧
      (standing ≠ .missing → ∃ a text, store.get? u = some a ∧
        SourceSet.IsCompiledFrom files u text ∧ standing.DecidedBy settings u text a)) := by
  intro standing
  have hmissing : standing = .missing ↔
      store.contains u = false ∨ ¬ SourceSet.Declares files u ∧ files.contains u = false :=
    check_eq_missing_iff
  have hled : standing ≠ .missing → ∃ a text, store.get? u = some a ∧
      (SourceSet.ofFiles files).text? u = some text := by
    rw [ne_eq, hmissing, not_or, ← SourceSet.text?_eq_none_iff, Bool.not_eq_false]
    rintro ⟨hstored, htext⟩
    obtain ⟨a, ha⟩ := NameMap.contains_iff.1 hstored
    obtain ⟨text, htext⟩ := Option.ne_none_iff_exists'.1 htext
    exact ⟨a, text, ha, htext⟩
  refine ⟨hmissing, fun hfound => ?_, fun hpath => ⟨?_, fun hfound => ?_⟩⟩
  · obtain ⟨a, text, ha, htext⟩ := hled hfound
    exact ⟨a, text, ha, SourceSet.text?_eq_some_iff.1 htext, check_decidedBy ha htext⟩
  · rw [hmissing, and_iff_left hpath]
  · obtain ⟨a, text, ha, htext⟩ := hled hfound
    refine ⟨a, text, ha, ?_, check_decidedBy ha htext⟩
    rcases SourceSet.text?_eq_some_iff.1 htext with hfile | ⟨-, hfrom⟩
    · rw [NameMap.contains_eq_false_iff.1 hpath] at hfile
      cases hfile
    · exact hfrom

namespace SamplePath

def files : NameMap String := .ofList [("contracts/A.sol", "contract A {}")]

def artifact : Artifact where
  name := "contracts/A.sol"
  fingerprint := fingerprintText "contract A {}" "contracts/A.sol" false
  compiler := ⟨"0.8.24", true, 200, none⟩
  dependencies := {}
  bytecode := "6080"
  deployedBytecode := ""
  abi := .array []
  sourcePath := "contracts/A.sol"
  kind := .contract
  metadata := .null

def store : Store := ⟨none, .ofList [(artifact.name, artifact)]⟩

end SamplePath

theorem path_is_fresh :
    check (.ofFiles SamplePath.files) SamplePath.store {} "contracts/A.sol" = .fresh ∧
      ¬ SourceSet.Declares SamplePath.files "contracts/A.sol" := by
  refine ⟨check_eq_fresh_iff.2 ⟨SamplePath.artifact, rfl, rfl, rfl⟩, ?_⟩
  rw [SourceSet.Declares, ← SourceSet.containsUnit_ofFiles_iff]
  decide

end ContractBuild
