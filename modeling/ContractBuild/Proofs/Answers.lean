import ContractBuild.Compiler.Outline
import ContractBuild.Proofs.ArtifactText
import ContractBuild.Proofs.Identifiers
import ContractBuild.Proofs.SourceIndex
import ContractBuild.Staleness

/-! What is asked of compilers: which units their answers hold, measured by the declarations in the
files that they are given, and what the artifacts are like. -/

namespace ContractBuild

open Source

def CompileRequest.Declares (request : CompileRequest) (u : String) : Prop :=
  ∃ path text, request.sources.get? path = some text ∧
    ∃ d ∈ declarations (Text.bytes text), d.name = u

def CompileRequest.Within (request : CompileRequest) (sources : SourceSet) : Prop :=
  ∀ path text, request.sources.get? path = some text → sources.files.get? path = some text

theorem CompileRequest.Within.containsUnit {request : CompileRequest} {files : NameMap String}
    (h : request.Within (.ofFiles files)) {u : String} (hu : request.Declares u) :
    (SourceSet.ofFiles files).containsUnit u = true := by
  obtain ⟨path, text, hfile, d, hd, rfl⟩ := hu
  exact SourceSet.containsUnit_of_declared (h path text hfile) hd

namespace Compiler

/-- Every unit that the given files declare is answered. -/
def Complete (compiler : Compiler) : Prop :=
  ∀ request artifacts, compiler request = .ok artifacts →
    ∀ u, request.Declares u → artifacts.contains u = true

/-- The units that are answered are those that the given files declare. -/
def Exact (compiler : Compiler) : Prop :=
  ∀ request artifacts, compiler request = .ok artifacts →
    ∀ u, artifacts.contains u = true ↔ request.Declares u

theorem Exact.complete {compiler : Compiler} (h : compiler.Exact) : compiler.Complete :=
  fun request artifacts hok u hu => (h request artifacts hok u).2 hu

theorem outline_exact : outline.Exact := by
  intro request artifacts hok u
  cases hok
  rw [NameMap.contains_iff]
  constructor
  · rintro ⟨a, ha⟩
    obtain ⟨⟨path, text⟩, hfile, hu⟩ := List.mem_flatMap.1 (NameMap.mem_of_get?_ofList ha)
    obtain ⟨d, hd, he⟩ := List.mem_map.1 hu
    exact ⟨path, text, NameMap.get?_eq_some_iff.2 hfile, d, hd, congrArg Prod.fst he⟩
  · rintro ⟨path, text, hfile, d, hd, rfl⟩
    apply NameMap.exists_get?_ofList
    refine List.mem_flatMap.2 ⟨(path, text), NameMap.get?_eq_some_iff.1 hfile, ?_⟩
    exact List.mem_map.2 ⟨d, hd, rfl⟩

structure Answers (a : Artifact) (request : CompileRequest) (u : String) : Prop where
  settings : request.settings.mismatch? a.compiler = none
  source : ∃ text, request.sources.get? a.sourcePath = some text ∧
    ∃ d ∈ declarations (Text.bytes text), d.name = u
  readsBack : a.ReadsBack

/-- The units that the given files declare are answered, and no others, by artifacts as they may
have them. -/
structure Faithful (compiler : Compiler) : Prop where
  exact : compiler.Exact
  answers : ∀ request artifacts, compiler request = .ok artifacts →
    ∀ u a, artifacts.get? u = some a → Answers a request u

theorem Exact.isIdentifier {compiler : Compiler} (h : compiler.Exact) {request : CompileRequest}
    {artifacts : NameMap Artifact} (hanswer : compiler request = .ok artifacts) {u : String}
    {a : Artifact} (ha : artifacts.get? u = some a) : IsIdentifier u := by
  obtain ⟨_, _, _, d, hd, rfl⟩ := (h request artifacts hanswer u).1 (NameMap.contains_iff.2 ⟨a, ha⟩)
  exact isIdentifier_of_mem_declarations hd

theorem mismatch?_recorded (settings : Settings) : settings.mismatch? (recorded settings) = none := by
  have hagrees : ∀ {α : Type} (asked : Option α) (holds : α → Bool),
      (∀ x, asked = some x → holds x = true) → agrees asked holds = true := by
    intro α asked holds h
    cases asked with
    | none => rfl
    | some x => exact h x rfl
  rw [Settings.mismatch?, hagrees, hagrees, hagrees, hagrees]
  · rfl
  · intro v hv
    rw [recorded, hv]
    exact beq_self_eq_true _
  · intro n hn
    rw [recorded, hn]
    exact beq_self_eq_true _
  · intro b hb
    rw [recorded, hb]
    exact beq_self_eq_true _
  · intro v hv
    rw [recorded, hv]
    exact beq_self_eq_true _

theorem readsBack_outlineArtifact (settings : Settings) (path : String) (d : Declaration) :
    (outlineArtifact settings path d).ReadsBack := by
  have hdepth : max (Json.array []).depth (max 1 Json.null.depth) < Json.maxDepth := by
    decide
  exact Artifact.readsBack_iff.2 ⟨hdepth, rfl, rfl⟩

theorem outline_faithful : outline.Faithful := by
  refine ⟨outline_exact, fun request artifacts hok u a ha => ?_⟩
  cases hok
  obtain ⟨⟨path, text⟩, hfile, hu⟩ := List.mem_flatMap.1 (NameMap.mem_of_get?_ofList ha)
  obtain ⟨d, hd, he⟩ := List.mem_map.1 hu
  cases he
  exact ⟨mismatch?_recorded _, ⟨text, NameMap.get?_eq_some_iff.2 hfile, d, hd, rfl⟩,
    readsBack_outlineArtifact _ _ _⟩

end Compiler
end ContractBuild
