import ContractBuild.Proofs.Characters
import ContractBuild.Proofs.SourceIndex

/-! Which of several declarations of a unit the index keeps: the first one in the file with the least
path. What files with greater paths declare has no say, neither in the index nor in fingerprints. -/

namespace ContractBuild

open Source

namespace Source

def firstDeclaration? (text u : String) : Option Declaration :=
  (declarations (Text.bytes text)).find? (·.name == u)

theorem exists_firstDeclaration?_iff {text u : String} :
    (∃ d, firstDeclaration? text u = some d) ↔ ∃ d ∈ declarations (Text.bytes text), d.name = u := by
  simp only [← Option.isSome_iff_exists, firstDeclaration?, List.find?_isSome, beq_iff_eq]

end Source

theorem lookup_declaredUnits (path text u : String) : (declaredUnits path text).lookup u =
    (firstDeclaration? text u).map fun d => ⟨path, d.kind⟩ := by
  rw [declaredUnits, firstDeclaration?]
  induction declarations (Text.bytes text) with
  | nil => rfl
  | cons d rest ih =>
    rw [List.map_cons, NameMap.lookup_cons_ite, ih]
    by_cases h : u = d.name
    · have hname : (d.name == u) = true := beq_iff_eq.2 h.symm
      rw [if_pos h, List.find?_cons, hname, Option.map_some]
    · have hname : (d.name == u) = false := beq_false_of_ne (Ne.symm h)
      rw [if_neg h, List.find?_cons, hname]

namespace SourceSet

variable {files : NameMap String} {u path text : String} {info : UnitInfo}

/-- The unit is declared in the file at the path, first with the kind, and no file of a lesser path
declares it. Paths are compared byte by byte. -/
structure IsLeast (files : NameMap String) (u : String) (info : UnitInfo) : Prop where
  first : ∃ text d, files.get? info.path = some text ∧ firstDeclaration? text u = some d ∧
    d.kind = info.kind
  least : ∀ path text, files.get? path = some text →
    (∃ d ∈ declarations (Text.bytes text), d.name = u) → Text.bytes info.path ≤ Text.bytes path

theorem IsLeast.unique {other : UnitInfo} (h : IsLeast files u info) (h' : IsLeast files u other) :
    info = other := by
  obtain ⟨text, d, htext, hd, hkind⟩ := h.first
  obtain ⟨text', d', htext', hd', hkind'⟩ := h'.first
  have hle := h.least _ _ htext' (exists_firstDeclaration?_iff.1 ⟨d', hd'⟩)
  have hge := h'.least _ _ htext (exists_firstDeclaration?_iff.1 ⟨d, hd⟩)
  have hpath : info.path = other.path :=
    String.le_antisymm (Text.bytes_le_iff.1 hle) (Text.bytes_le_iff.1 hge)
  rw [hpath] at htext
  cases htext.symm.trans htext'
  cases hd.symm.trans hd'
  cases info
  cases other
  cases hpath
  cases hkind
  cases hkind'
  rfl

theorem unit?_eq_findSome? (files : NameMap String) (u : String) : (ofFiles files).unit? u =
    files.entries.findSome? fun e => (firstDeclaration? e.2 u).map fun d => ⟨e.1, d.kind⟩ := by
  rw [unit?_ofFiles]
  induction files.entries with
  | nil => rfl
  | cons e rest ih =>
    rw [List.flatMap_cons, List.lookup_append, ih, lookup_declaredUnits, List.findSome?_cons]
    cases firstDeclaration? e.2 u <;> rfl

theorem isLeast_of_unit? (h : (ofFiles files).unit? u = some info) : IsLeast files u info := by
  rw [unit?_eq_findSome?, List.findSome?_eq_some_iff] at h
  obtain ⟨before, ⟨p, s⟩, after, hentries, hfound, hbefore⟩ := h
  obtain ⟨d, hd, rfl⟩ := Option.map_eq_some_iff.1 hfound
  refine ⟨⟨s, d, NameMap.get?_eq_some_iff.2 ?_, hd, rfl⟩, fun path text hfile hdeclared => ?_⟩
  · rw [hentries]
    exact List.mem_append_right _ List.mem_cons_self
  · -- The files in front do not declare the unit, and those behind have greater paths.
    have hascending := files.ascending
    have hmem := NameMap.get?_eq_some_iff.1 hfile
    rw [hentries] at hascending hmem
    rw [Text.bytes_le_iff]
    rcases List.mem_append.1 hmem with hmem | hmem
    · obtain ⟨e, he⟩ := exists_firstDeclaration?_iff.2 hdeclared
      have hnone := hbefore _ hmem
      dsimp only at hnone
      rw [he] at hnone
      cases hnone
    · rcases List.mem_cons.1 hmem with heq | hmem
      · cases heq
        exact String.le_refl _
      · have hlt := (List.pairwise_cons.1 (List.pairwise_append.1 hascending).2.1).1 _ hmem
        exact Std.le_of_lt hlt

theorem unit?_eq_some_iff : (ofFiles files).unit? u = some info ↔ IsLeast files u info := by
  refine ⟨isLeast_of_unit?, fun h => ?_⟩
  obtain ⟨text, d, htext, hd, -⟩ := h.first
  obtain ⟨e, he, hname⟩ := exists_firstDeclaration?_iff.1 ⟨d, hd⟩
  have hdeclared := containsUnit_of_declared htext he
  rw [hname] at hdeclared
  obtain ⟨other, hother⟩ := NameMap.contains_iff.1 hdeclared
  exact hother.trans (congrArg some ((isLeast_of_unit? hother).unique h))

theorem containsUnit_ofFiles_iff : (ofFiles files).containsUnit u = true ↔
    ∃ path text, files.get? path = some text ∧
      ∃ d ∈ declarations (Text.bytes text), d.name = u := by
  constructor
  · intro h
    obtain ⟨path, hpath⟩ := containsUnit_iff.1 h
    obtain ⟨text, htext, hd⟩ := declared_at_path hpath
    exact ⟨path, text, htext, hd⟩
  · rintro ⟨path, text, htext, d, hd, rfl⟩
    exact containsUnit_of_declared htext hd

theorem IsLeast.insert (h : IsLeast files u info) (hlt : info.path < path) (text : String) :
    IsLeast (files.insert path text) u info := by
  obtain ⟨old, d, hold, hd, hkind⟩ := h.first
  have hne : info.path ≠ path := Std.ne_of_lt hlt
  refine ⟨⟨old, d, ?_, hd, hkind⟩, fun other new hfile hdeclared => ?_⟩
  · rw [NameMap.get?_insert, if_neg hne, hold]
  · rw [NameMap.get?_insert] at hfile
    split at hfile
    · rename_i heq
      rw [heq, Text.bytes_le_iff]
      exact Std.le_of_lt hlt
    · exact h.least other new hfile hdeclared

theorem fingerprint?_insert (h : IsLeast files u info) (hlt : info.path < path) (hne : path ≠ u)
    (text : String) (minified : Bool) : (ofFiles (files.insert path text)).fingerprint? u minified =
      (ofFiles files).fingerprint? u minified := by
  have hafter := unit?_eq_some_iff.2 (h.insert hlt text)
  have hbefore := unit?_eq_some_iff.2 h
  have hget : ∀ name, name ≠ path →
      (ofFiles (files.insert path text)).files.get? name = (ofFiles files).files.get? name := by
    intro name hname
    exact (NameMap.get?_insert files path name text).trans (if_neg hname)
  have htext : (ofFiles (files.insert path text)).text? u = (ofFiles files).text? u := by
    rw [text?, text?, path?, path?, hafter, hbefore, hget u hne.symm, Option.map_some,
      Option.bind_some, Option.bind_some, hget info.path (Std.ne_of_lt hlt)]
  rw [fingerprint?, fingerprint?, htext]

/-- A file at a greater path changes nothing, unless its path is the name of the unit. -/
theorem index_keeps_least_path (files : NameMap String) (u : String) :
    ((ofFiles files).containsUnit u = true ↔ ∃ path text, files.get? path = some text ∧
      ∃ d ∈ declarations (Text.bytes text), d.name = u) ∧
    (∀ info, (ofFiles files).unit? u = some info ↔ IsLeast files u info) ∧
    ∀ info path text, (ofFiles files).unit? u = some info →
      Text.bytes info.path < Text.bytes path →
        (ofFiles (files.insert path text)).unit? u = some info ∧
        (path ≠ u → ∀ minified, (ofFiles (files.insert path text)).fingerprint? u minified =
          (ofFiles files).fingerprint? u minified) := by
  refine ⟨containsUnit_ofFiles_iff, fun _ => unit?_eq_some_iff, fun info path text hinfo hlt => ?_⟩
  have hleast := unit?_eq_some_iff.1 hinfo
  rw [Text.bytes_lt_iff] at hlt
  exact ⟨unit?_eq_some_iff.2 (hleast.insert hlt text),
    fun hne minified => fingerprint?_insert hleast hlt hne text minified⟩

end SourceSet

namespace SampleFiles

def files : NameMap String :=
  .ofList [("contracts/b.sol", "interface D \x7b\x7d"),
    ("contracts/a.sol", "library L \x7b\x7d library D \x7b\x7d contract D \x7b\x7d")]

end SampleFiles

theorem SourceSet.index_keeps_least_path_of_three :
    (SourceSet.ofFiles SampleFiles.files).unit? "D" = some ⟨"contracts/a.sol", .library⟩ ∧
    Text.bytes "contracts/a.sol" < Text.bytes "contracts/c.sol" ∧
    (SourceSet.ofFiles (SampleFiles.files.insert "contracts/c.sol" "contract D \x7b\x7d")).unit? "D" =
      some ⟨"contracts/a.sol", .library⟩ := by
  have hunit : (SourceSet.ofFiles SampleFiles.files).unit? "D" =
      some ⟨"contracts/a.sol", .library⟩ := by decide
  have hlt : Text.bytes "contracts/a.sol" < Text.bytes "contracts/c.sol" := by decide
  exact ⟨hunit, hlt, ((SourceSet.index_keeps_least_path SampleFiles.files "D").2.2 _ _
    "contract D \x7b\x7d" hunit hlt).1⟩

end ContractBuild
