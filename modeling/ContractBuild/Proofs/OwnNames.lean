import ContractBuild.Compiler.Command
import ContractBuild.Proofs.Answers
import ContractBuild.Proofs.Filing

/-! What an external compiler states as the name and the fingerprint of a unit. A round overwrites both
by those of the sources, so outputs that differ in nothing else lead to the same round. -/

namespace ContractBuild

theorem Json.ofBytes?_bytes (s : String) : Json.ofBytes? (Text.bytes s) = Json.parse? s := by
  rw [Json.ofBytes?, Text.ofBytes?_bytes, Option.bind_some]

section Members

open Reader

theorem ok_bind {ε α β : Type} (a : α) (f : α → Except ε β) : (Except.ok a >>= f) = f a := rfl

theorem map_mapError {ε ε' α β : Type} (x : Except ε α) (f : ε → ε') (g : α → β) :
    (x.mapError f).map g = (x.map g).mapError f := by
  cases x with
  | error e => rfl
  | ok a => rfl

theorem map_bind_congr {ε α β γ : Type} {x : Except ε α} {f f' : α → Except ε β} {g : β → γ}
    (h : ∀ a, (f a).map g = (f' a).map g) : (x >>= f).map g = (x >>= f').map g := by
  cases x with
  | error e => rfl
  | ok a => exact h a

variable {members members' : List (String × Json)}

theorem Reader.member_congr {α : Type} {key : String} (h : members.lookup key = members'.lookup key)
    (read : Reader α) : member members key read = member members' key read := by
  rw [member, member, h]

def Artifact.ownKeys : List String := ["contractName", "fingerprint"]

structure Artifact.Stated (members : List (String × Json)) : Prop where
  name : ∃ s, members.lookup "contractName" = some (.string s)
  fingerprint : ∃ s d, members.lookup "fingerprint" = some (.string s) ∧ Digest.parse? s = some d

theorem Artifact.Stated.member_name (h : Artifact.Stated members) :
    ∃ name, member members "contractName" text = .ok (some name) := by
  obtain ⟨s, hs⟩ := h.name
  exact ⟨s, member_of_lookup hs rfl⟩

theorem Artifact.Stated.member_fingerprint (h : Artifact.Stated members) :
    ∃ fingerprint, member members "fingerprint" digest = .ok (some fingerprint) := by
  obtain ⟨s, d, hs, hd⟩ := h.fingerprint
  refine ⟨d, member_of_lookup hs ?_⟩
  rw [digest, text, ok_bind, hd]
  rfl

theorem Artifact.ofMembers_adopted (h : Artifact.Stated members) (h' : Artifact.Stated members')
    (hrest : ∀ key ∉ Artifact.ownKeys, members.lookup key = members'.lookup key)
    {sources : SourceSet} {minified : Bool} {unit : String} {f : Digest}
    (hf : sources.fingerprint? unit minified = some f) :
    (Artifact.ofMembers members).map (·.adopted unit sources minified) =
      (Artifact.ofMembers members').map (·.adopted unit sources minified) := by
  have hadopted : ∀ a : Artifact, a.adopted unit sources minified =
      { a with name := unit, fingerprint := f } := by
    intro a
    rw [Artifact.adopted, hf]
    rfl
  simp only [hadopted]
  obtain ⟨name, hname⟩ := h.member_name
  obtain ⟨name', hname'⟩ := h'.member_name
  obtain ⟨digest, hdigest⟩ := h.member_fingerprint
  obtain ⟨digest', hdigest'⟩ := h'.member_fingerprint
  rw [Artifact.ofMembers, Artifact.ofMembers, hname, hname', hdigest, hdigest',
    member_congr (hrest "abi" (by decide)), member_congr (hrest "bytecode" (by decide)),
    member_congr (hrest "compiler" (by decide)), member_congr (hrest "dependencies" (by decide)),
    member_congr (hrest "deployedBytecode" (by decide)), member_congr (hrest "metadata" (by decide)),
    member_congr (hrest "sourcePath" (by decide)), member_congr (hrest "type" (by decide))]
  -- Both sides read the same members in the same order, apart from those two, which cannot fail.
  refine map_bind_congr fun abi => map_bind_congr fun bytecode => map_bind_congr fun compiler => ?_
  rw [ok_bind, ok_bind]
  refine map_bind_congr fun dependencies => map_bind_congr fun deployedBytecode => ?_
  rw [ok_bind, ok_bind]
  refine map_bind_congr fun metadata => map_bind_congr fun path => map_bind_congr fun kind => ?_
  rw [required, required, required, required, ok_bind, ok_bind, ok_bind, ok_bind]
  refine map_bind_congr fun compiler => map_bind_congr fun dependencies => ?_
  refine map_bind_congr fun bytecode => map_bind_congr fun abi => map_bind_congr fun path => ?_
  rfl

structure Artifact.OwnMembers (members : List (String × Json)) : Prop where
  name : ∀ j, members.lookup "contractName" = some j → ∃ s, j = .string s
  fingerprint : ∀ j, members.lookup "fingerprint" = some j →
    ∃ s d, j = .string s ∧ Digest.parse? s = some d

end Members

namespace Compiler

/-- Values of two outputs that differ, if at all, in the name and the fingerprint only. -/
inductive Alike : Json → Json → Prop where
  | same (value : Json) : Alike value value
  | own {members members' : List (String × Json)} (h : Artifact.OwnMembers members)
      (h' : Artifact.OwnMembers members')
      (hrest : ∀ key ∉ Artifact.ownKeys, members.lookup key = members'.lookup key) :
      Alike (.object members) (.object members')

def OutputsAlike (members members' : List (String × Json)) : Prop :=
  List.Forall₂ (fun m m' => m.1 = m'.1 ∧ Alike m.2 m'.2) members members'

theorem lookup_withMember (key k : String) (value : Json) (members : List (String × Json)) :
    (withMember key value members).lookup k =
      if k = key then some ((members.lookup key).getD value) else members.lookup k := by
  rw [withMember]
  cases h : members.lookup key with
  | none =>
    rw [Option.isSome_none, if_neg Bool.false_ne_true, NameMap.lookup_cons_ite]
    rfl
  | some j =>
    rw [Option.isSome_some, if_pos rfl]
    split
    · rename_i he
      rw [he, h]
      rfl
    · rfl

def completed (unit : String) (members : List (String × Json)) : List (String × Json) :=
  withMember "fingerprint" (.string (Digest.ofBytes []).hex)
    (withMember "contractName" (.string unit) members)

theorem stated_completed {members : List (String × Json)} (h : Artifact.OwnMembers members)
    (unit : String) : Artifact.Stated (completed unit members) := by
  constructor
  · rw [completed, lookup_withMember, if_neg (by decide), lookup_withMember, if_pos rfl]
    cases hname : members.lookup "contractName" with
    | none => exact ⟨unit, rfl⟩
    | some j =>
      obtain ⟨s, rfl⟩ := h.name j hname
      exact ⟨s, rfl⟩
  · rw [completed, lookup_withMember, if_pos rfl, lookup_withMember, if_neg (by decide)]
    cases hfingerprint : members.lookup "fingerprint" with
    | none => exact ⟨_, _, rfl, Digest.parse?_hex _⟩
    | some j =>
      obtain ⟨s, d, rfl, hd⟩ := h.fingerprint j hfingerprint
      exact ⟨s, d, rfl, hd⟩

theorem lookup_completed {unit key : String} {members : List (String × Json)}
    (hkey : key ∉ Artifact.ownKeys) : (completed unit members).lookup key = members.lookup key := by
  rw [Artifact.ownKeys, List.mem_cons, List.mem_singleton, not_or] at hkey
  rw [completed, lookup_withMember, if_neg hkey.2, lookup_withMember, if_neg hkey.1]

variable {sources : SourceSet} {minified : Bool}

theorem outputArtifact_alike {unit : String} {f : Digest}
    (hf : sources.fingerprint? unit minified = some f) {value value' : Json} (h : Alike value value') :
    (outputArtifact unit value).map (·.adopted unit sources minified) =
      (outputArtifact unit value').map (·.adopted unit sources minified) := by
  cases h with
  | same => rfl
  | own h h' hrest =>
    rename_i members members'
    have hsame := Artifact.ofMembers_adopted (stated_completed h unit) (stated_completed h' unit)
      (fun key hkey => by rw [lookup_completed hkey, lookup_completed hkey, hrest key hkey]) hf
    show ((Artifact.ofMembers (completed unit members)).mapError _).map _ =
      ((Artifact.ofMembers (completed unit members')).mapError _).map _
    rw [map_mapError, hsame, ← map_mapError]

def adoptedAnswer (sources : SourceSet) (minified : Bool) (artifacts : NameMap Artifact) :
    List (String × Artifact) := Store.adoptedEntries sources minified artifacts.entries

theorem adoptedAnswer_insert (artifacts : NameMap Artifact) (unit : String) (a : Artifact) :
    adoptedAnswer sources minified (artifacts.insert unit a) =
      NameMap.insertEntry unit (a.adopted unit sources minified)
        (adoptedAnswer sources minified artifacts) := by
  show Store.adoptedEntries sources minified (NameMap.insertEntry unit a artifacts.entries) =
    NameMap.insertEntry unit _ (Store.adoptedEntries sources minified artifacts.entries)
  induction artifacts.entries with
  | nil => rfl
  | cons e rest ih =>
    obtain ⟨k, b⟩ := e
    rw [Store.adoptedEntries] at ih ⊢
    rw [NameMap.insertEntry, Store.adoptedEntries, List.map_cons, NameMap.insertEntry]
    split
    · rfl
    · split
      · rfl
      · rw [List.map_cons, ih]
        rfl

theorem outputArtifacts_alike {members members' : List (String × Json)}
    (h : OutputsAlike members members')
    (hdeclared : ∀ m ∈ members, ∃ f, sources.fingerprint? m.1 minified = some f)
    {found found' : NameMap Artifact}
    (hfound : adoptedAnswer sources minified found = adoptedAnswer sources minified found') :
    (outputArtifacts found members).map (adoptedAnswer sources minified) =
      (outputArtifacts found' members').map (adoptedAnswer sources minified) := by
  induction h generalizing found found' with
  | nil => exact congrArg Except.ok hfound
  | @cons m m' rest rest' hm hrest ih =>
    obtain ⟨unit, value⟩ := m
    obtain ⟨unit', value'⟩ := m'
    obtain ⟨rfl, hvalue⟩ := hm
    obtain ⟨f, hf⟩ := hdeclared _ List.mem_cons_self
    have hone := outputArtifact_alike hf hvalue
    rw [outputArtifacts, outputArtifacts]
    revert hone
    cases outputArtifact unit value with
    | error e =>
      cases outputArtifact unit value' with
      | error e' => exact fun hone => by cases hone; rfl
      | ok a' => exact fun hone => by cases hone
    | ok a =>
      cases outputArtifact unit value' with
      | error e' => exact fun hone => by cases hone
      | ok a' =>
        intro hone
        have hsame : a.adopted unit sources minified = a'.adopted unit sources minified :=
          Except.ok.inj hone
        refine ih (fun m hm => hdeclared m (List.mem_cons_of_mem _ hm)) ?_
        rw [adoptedAnswer_insert, adoptedAnswer_insert, hfound, hsame]

theorem answer_of_object {output : List UInt8} {members : List (String × Json)}
    (hparsed : Json.ofBytes? output = some (.object members)) :
    ({ output } : ProgramOutput).answer = (outputArtifacts {} members).mapError .output := by
  show (readOutput output).mapError _ = _
  rw [readOutput, hparsed]

theorem answer_alike {output output' : List UInt8} {members members' : List (String × Json)}
    (hparsed : Json.ofBytes? output = some (.object members))
    (hparsed' : Json.ofBytes? output' = some (.object members'))
    (halike : OutputsAlike members members')
    (hdeclared : ∀ m ∈ members, ∃ f, sources.fingerprint? m.1 minified = some f) :
    ({ output } : ProgramOutput).answer.map (adoptedAnswer sources minified) =
      ({ output := output' } : ProgramOutput).answer.map (adoptedAnswer sources minified) := by
  rw [answer_of_object hparsed, answer_of_object hparsed', map_mapError, map_mapError,
    outputArtifacts_alike halike hdeclared rfl]

theorem names_outputArtifacts {members : List (String × Json)} {found artifacts : NameMap Artifact}
    (h : outputArtifacts found members = .ok artifacts) (u : String) :
    artifacts.contains u = true ↔ u ∈ members.map (·.1) ∨ found.contains u = true := by
  induction members generalizing found with
  | nil =>
    cases h
    exact (or_iff_right List.not_mem_nil).symm
  | cons m rest ih =>
    obtain ⟨unit, value⟩ := m
    rw [outputArtifacts] at h
    split at h
    · cases h
    · rename_i a _
      have hinsert : (found.insert unit a).contains u = true ↔ u = unit ∨ found.contains u = true := by
        rw [NameMap.contains, NameMap.get?_insert]
        by_cases hu : u = unit
        · rw [if_pos hu]
          exact iff_of_true rfl (Or.inl hu)
        · rw [if_neg hu]
          exact (or_iff_right hu).symm
      rw [ih h, hinsert, List.map_cons, List.mem_cons, or_left_comm, or_assoc]

theorem names_answer {output : List UInt8} {members : List (String × Json)}
    {artifacts : NameMap Artifact} (hparsed : Json.ofBytes? output = some (.object members))
    (h : ({ output } : ProgramOutput).answer = .ok artifacts) (u : String) :
    artifacts.contains u = true ↔ u ∈ members.map (·.1) := by
  rw [answer_of_object hparsed] at h
  cases hall : outputArtifacts {} members with
  | error e =>
    rw [hall] at h
    cases h
  | ok found =>
    rw [hall] at h
    cases h
    exact (names_outputArtifacts hall u).trans (or_iff_left (by rintro ⟨⟩))

end Compiler

theorem Store.install_congr {sources : SourceSet} {minified : Bool} {s : Store} {t : FileTree}
    {entries other : List (String × Artifact)}
    (h : Store.adoptedEntries sources minified entries = Store.adoptedEntries sources minified other) :
    s.install sources minified t entries = s.install sources minified t other := by
  induction entries generalizing other s t with
  | nil =>
    rw [List.map_eq_nil_iff.1 h.symm]
  | cons e rest ih =>
    cases other with
    | nil => cases h
    | cons e' rest' =>
      obtain ⟨hhead, hrest⟩ := List.cons.inj h
      obtain ⟨unit, a⟩ := e
      obtain ⟨unit', a'⟩ := e'
      obtain ⟨hunit, hsame⟩ := Prod.mk.inj hhead
      dsimp only at hunit hsame
      subst hunit
      rw [Store.install, Store.install, hsame]
      rcases s.add (a'.adopted unit sources minified) t with ⟨_ | _, s₁, t₁⟩
      · rfl
      · exact ih hrest

section Rounds

variable {sources : SourceSet} {store : Store} {compiler : Compiler} {settings : Settings}
  {t : FileTree}

theorem rebuild_congr_adopted {other : Compiler}
    (h : ∀ request, (compiler request).map (Compiler.adoptedAnswer sources settings.minifySource) =
      (other request).map (Compiler.adoptedAnswer sources settings.minifySource)) :
    rebuild sources store compiler settings t = rebuild sources store other settings t := by
  rw [rebuild, rebuild]
  cases compileRequest? sources settings (store.close (staleUnits sources store settings)) with
  | none => rfl
  | some request =>
    dsimp only
    have hrequest := h request
    revert hrequest
    cases compiler request with
    | error e =>
      cases other request with
      | error e' => exact fun hsame => by cases hsame; rfl
      | ok b => exact fun hsame => by cases hsame
    | ok a =>
      cases other request with
      | error e' => exact fun hsame => by cases hsame
      | ok b =>
        intro hsame
        have hentries : Store.adoptedEntries sources settings.minifySource a.entries =
          Store.adoptedEntries sources settings.minifySource b.entries := Except.ok.inj hsame
        have hnames : a.names = b.names := by
          have hfst := congrArg (List.map (·.1)) hentries
          rw [Store.adoptedEntries, Store.adoptedEntries, List.map_map, List.map_map] at hfst
          exact hfst
        dsimp only
        rw [Store.install_congr hentries, hnames]

end Rounds

/-- What is installed is filed by the key in the output. -/
theorem rebuild_ignores_own_names {files : NameMap String} (store : Store) (settings : Settings)
    (t : FileTree) {output output' : List UInt8} {members members' : List (String × Json)}
    (hparsed : Json.ofBytes? output = some (.object members))
    (hparsed' : Json.ofBytes? output' = some (.object members'))
    (halike : Compiler.OutputsAlike members members')
    (hdeclared : ∀ m ∈ members, (SourceSet.ofFiles files).containsUnit m.1 = true) :
    let answer : Compiler := fun _ => ({ output } : ProgramOutput).answer
    let answer' : Compiler := fun _ => ({ output := output' } : ProgramOutput).answer
    let round := rebuild (.ofFiles files) store answer settings t
    rebuild (.ofFiles files) store answer' settings t = round ∧
    (∀ summary, round.result = .ok summary → ∀ u ∈ summary.installed, u ∈ members.map (·.1) ∧
      ∃ a, round.store.get? u = some a ∧ a.name = u ∧
        (SourceSet.ofFiles files).fingerprint? u settings.minifySource = some a.fingerprint) ∧
    ∀ d, store.directory = some d → d.Plain → t.WellFormed →
      (∀ summary, round.result = .ok summary → d.text ≠ "" →
        ∀ u ∈ summary.installed, ∃ k, Store.Filed d round.store round.tree u k) ∧
      ∀ k content, round.tree.node? k = some (.file content) → t.node? k = some (.file content) ∨
        ∃ u ∈ members.map (·.1), Store.Filed d round.store round.tree u k := by
  intro answer answer' round
  have hfingerprints : ∀ m ∈ members, ∃ f,
      (SourceSet.ofFiles files).fingerprint? m.1 settings.minifySource = some f :=
    fun m hm => SourceSet.fingerprint?_of_containsUnit (hdeclared m hm) _
  refine ⟨(rebuild_congr_adopted fun _ =>
    Compiler.answer_alike hparsed hparsed' halike hfingerprints).symm, ?_, ?_⟩
  · intro summary hresult u hu
    obtain ⟨-, -, ⟨-, hnone, -, -⟩ | ⟨request, artifacts, -, hanswer, hinstalled, hinstall⟩⟩ :=
      rebuild_ok hresult
    · rw [hnone] at hu
      cases hu
    · rw [hinstalled, NameMap.mem_names_iff] at hu
      have hkey := (Compiler.names_answer hparsed hanswer u).1 hu
      obtain ⟨a, ha⟩ := NameMap.contains_iff.1 hu
      obtain ⟨m, hm, rfl⟩ := List.mem_map.1 hkey
      obtain ⟨f, hf⟩ := hfingerprints m hm
      refine ⟨hkey, a.adopted m.1 (.ofFiles files) settings.minifySource, ?_, rfl, ?_⟩
      · rw [Store.get?_install hinstall, ha]
        rfl
      · rw [Artifact.adopted, hf]
        rfl
  · intro d hd hplain ht
    have hkeys : ∀ request artifacts, answer request = .ok artifacts →
        ∀ u, artifacts.contains u = true → u ∈ members.map (·.1) :=
      fun _ _ hanswer u => (Compiler.names_answer hparsed hanswer u).1
    constructor
    · intro summary hresult hne u hu
      refine filed_of_rebuild_ok ht hplain hne hd (fun request artifacts hanswer v hv => ?_)
        hresult hu
      obtain ⟨m, hm, rfl⟩ := List.mem_map.1 (hkeys request artifacts hanswer v hv)
      exact isUnitName_of_containsUnit (hdeclared m hm)
    · intro k content hnode
      refine (rebuild_files ht hplain hd hnode).imp_right ?_
      rintro ⟨request, artifacts, hanswer, u, hu, hfiled⟩
      exact ⟨u, hkeys request artifacts hanswer u hu, hfiled⟩

namespace SampleOutputs

open Project.Sample (startFiles unbuilt start)

def sources : SourceSet := .ofFiles (.ofList startFiles)

def quiet : List (String × Json) :=
  [("abi", .null), ("bytecode", .string "00"),
    ("compiler", .array [.string "1", .bool true, .integer 1]), ("dependencies", .array []),
    ("sourcePath", .string "D")]

def wordy : List (String × Json) :=
  [("abi", .null), ("bytecode", .string "00"),
    ("compiler", .array [.string "1", .bool true, .integer 1]), ("contractName", .string "M"),
    ("dependencies", .array []), ("fingerprint", .string "000102030405060708090a0b0c0d0e0f"),
    ("sourcePath", .string "D")]

def quietText : String :=
  "\x7b\"D\":\x7b\"abi\":null,\"bytecode\":\"00\",\"compiler\":[\"1\",true,1]," ++
    "\"dependencies\":[],\"sourcePath\":\"D\"\x7d\x7d"

def wordyText : String :=
  "\x7b\"D\":\x7b\"abi\":null,\"bytecode\":\"00\",\"compiler\":[\"1\",true,1]," ++
    "\"contractName\":\"M\",\"dependencies\":[]," ++
    "\"fingerprint\":\"000102030405060708090a0b0c0d0e0f\",\"sourcePath\":\"D\"\x7d\x7d"

theorem parsed_quiet :
    Json.ofBytes? (Text.bytes quietText) = some (.object [("D", .object quiet)]) :=
  (Json.ofBytes?_bytes _).trans (by decide +kernel)

theorem parsed_wordy :
    Json.ofBytes? (Text.bytes wordyText) = some (.object [("D", .object wordy)]) :=
  (Json.ofBytes?_bytes _).trans (by decide +kernel)

theorem alike : Compiler.OutputsAlike [("D", .object wordy)] [("D", .object quiet)] := by
  refine .cons ⟨rfl, .own ⟨fun j h => ?_, fun j h => ?_⟩ ⟨fun j h => ?_, fun j h => ?_⟩ ?_⟩ .nil
  · cases h
    exact ⟨_, rfl⟩
  · cases h
    exact ⟨_, _, rfl, rfl⟩
  · cases h
  · cases h
  · intro key hkey
    rw [Artifact.ownKeys, List.mem_cons, List.mem_singleton, not_or] at hkey
    simp only [quiet, wordy, NameMap.lookup_cons_ite, if_neg hkey.1, if_neg hkey.2]

end SampleOutputs

open SampleOutputs in
theorem rebuild_ignores_name_of_other_contract :
    let answer (output : String) : Compiler :=
      fun _ => ({ output := Text.bytes output } : ProgramOutput).answer
    let round := rebuild sources Project.Sample.unbuilt (answer wordyText) {} Project.Sample.start
    rebuild sources Project.Sample.unbuilt (answer quietText) {} Project.Sample.start = round ∧
      round.store.entries.entries.map (fun e => (e.1, e.2.name)) = [("D", "D")] := by
  have hdeclared : ∀ m ∈ [("D", Json.object wordy)], sources.containsUnit m.1 = true := by decide
  refine ⟨(rebuild_ignores_own_names Project.Sample.unbuilt {} Project.Sample.start parsed_wordy
    parsed_quiet alike hdeclared).1, ?_⟩
  dsimp only
  rw [Compiler.answer_of_object parsed_wordy]
  decide +kernel

end ContractBuild
