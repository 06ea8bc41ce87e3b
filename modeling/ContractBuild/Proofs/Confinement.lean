import ContractBuild.Proofs.Reloading

/-! Where an addition writes. The name of a unit is pasted into a path as it is, so the one file that
changes may be anywhere; it is the unit's own file in the directory exactly if the name is a proper one. -/

namespace ContractBuild.Store

open FileTree ContractBuild.Path

variable {s s' : Store} {t t' : FileTree} {d : Path} {a : Artifact} {u : String}

/-- A file that an addition wrote is directly in the directory, under the name of its unit, and
readings find the artifact there. -/
structure Confined (d : Path) (a : Artifact) (t : FileTree) (place : Location) : Prop where
  place_eq : ∃ l, t.find d = .ok (l, .directory) ∧ place = l ++ [fileName a.name]
  listed : fileName a.name ∈ files t d
  holds : a.ReadsBack → artifactIn? t d (fileName a.name) = some a
  found : ∀ root, SourcesApart root d t → a.ReadsBack →
    t.pathExists (root.joinText a.sourcePath) = true →
      ((persistent d).load root t).2.1.get? a.name = some a

def SameFilesBut (place : Location) (t t' : FileTree) : Prop :=
  ∀ k, k ≠ place → ∀ content, t'.node? k = some (.file content) ↔ t.node? k = some (.file content)

theorem isUnitName_of_mem_files (ht : t.WellFormed) (h : fileName u ∈ files t d) : IsUnitName u := by
  obtain ⟨hname, hext, -⟩ := isFileName_of_mem ht (mem_files.1 h)
  have hstem : u = stemOf (fileName u) := (fileName_eq_iff hext).1 rfl
  refine ⟨fun hempty => ?_, fileName_noSlash.1 hname.noSlash⟩
  exact (eq_of_extensionOf? hext).2 (hstem.symm.trans hempty)

theorem get?_load_of_not_isUnitName (root : Path) (ht : t.WellFormed) (hu : ¬ IsUnitName u) :
    ((persistent d).load root t).2.1.get? u = none := by
  apply Option.eq_none_iff_forall_ne_some.2
  intro b hb
  obtain ⟨kept, dropped, hr⟩ := read_underway true root ht (s := persistent d) rfl
  rcases (Backed.start ht).file_of_entry hr hb with ⟨hkept, -⟩ | ⟨hentry, -⟩
  · exact hu (isUnitName_of_mem_files ht (hr.kept_sublist.subset hkept))
  · cases hentry

theorem confined_of_isUnitName (hne : d.text ≠ "") (hname : IsUnitName a.name) {before : FileTree}
    {place : Location} (r : Replaced t (d.joinText (fileName a.name)) (Text.bytes a.canonicalText)
      before place t') : Confined d a t' place := by
  obtain ⟨l, hl, hnameable, hfile, rfl, hnode, hlisted⟩ := exists_place hne hname r
  have hlisted := mem_files.2 hlisted
  have hholds : a.ReadsBack → artifactIn? t' d (fileName a.name) = some a := by
    intro hread
    rw [artifactIn?_of_canonicalText hl hfile hnameable hread hnode,
      if_pos (stemOf_fileName hname.ne_empty).symm]
  refine ⟨⟨l, hl, rfl⟩, hlisted, hholds, fun root hapart hread hsource => ?_⟩
  exact (get?_read_iff true r.wellFormed fun _ => hapart).2 ⟨hlisted, hholds hread, hsource⟩

/-- The file is in the directory, and found there, if and only if the name of the unit is proper. -/
theorem add_confined_iff {result : Except StoreError Unit} (ht : t.WellFormed) (hd : d.Plain)
    (hne : d.text ≠ "") (hs : s.directory = some d) (hadd : s.add a t = (result, s', t')) :
    match result with
    | .error _ => s' = s ∧
        ∀ k content, t'.node? k = some (.file content) ↔ t.node? k = some (.file content)
    | .ok () => s' = { s with entries := s.entries.insert a.name a } ∧
        ∃ place, t'.locate (d.joinText (fileName a.name)) = .ok place ∧
          t'.node? place = some (.file (Text.bytes a.canonicalText)) ∧ SameFilesBut place t t' ∧
          (Confined d a t' place ↔ IsUnitName a.name) ∧
          (¬ IsUnitName a.name → ∀ root later, later.WellFormed →
            ((persistent d).load root later).2.1.get? a.name = none) := by
  cases result with
  | error e =>
    have hext := add_extends ht hd hs hadd
    exact ⟨add_error hadd, fun k content => hext.node?_file_iff⟩
  | ok =>
    obtain ⟨before, place, r⟩ := add_replaced ht hd hs hadd
    refine ⟨add_ok hadd, place, locate_of_keepsDirectories r.keepsDirectories_before r.locate_place,
      ?_, fun k hk content => ?_, ⟨fun h => isUnitName_of_mem_files r.wellFormed h.listed,
        fun hname => confined_of_isUnitName hne hname r⟩,
      fun hname root _ hlater => get?_load_of_not_isUnitName root hlater hname⟩
    · rw [r.node?_eq, if_pos rfl]
    · rw [r.node?_eq, if_neg hk, r.before_extends.node?_file_iff]

theorem add_confined_of_plain_name :
    Confined SampleReload.directory SampleReload.artifact SampleReload.built
      (SampleReload.place ++ ["D.json"]) := by
  have hproper : IsUnitName SampleReload.artifact.name := ⟨by decide, by decide⟩
  obtain ⟨-, place, hlocate, -, -, hiff, -⟩ := add_confined_iff Project.Sample.start_wellFormed
    SampleReload.plain_directory (by decide) rfl SampleReload.added
  have hplace : SampleReload.built.locate
      (SampleReload.directory.joinText (fileName SampleReload.artifact.name)) =
        .ok (SampleReload.place ++ ["D.json"]) := by decide
  cases hplace.symm.trans hlocate
  exact hiff.2 hproper

namespace SampleEscape

open Project.Sample (root start)

def artifact : Artifact := Sample.artifact "../../package"

def elsewhere : Location := root ++ ["package.json"]

def tree : FileTree :=
  { start with nodes := start.nodes ++ [(elsewhere, .file (Text.bytes "\x7b\x7d"))] }

end SampleEscape

theorem add_overwrites_file_elsewhere :
    SampleEscape.tree.WellFormed ∧
    ((persistent SampleReload.directory).add SampleEscape.artifact SampleEscape.tree).1 = .ok () ∧
    SampleEscape.tree.node? SampleEscape.elsewhere = some (.file (Text.bytes "\x7b\x7d")) ∧
    ((persistent SampleReload.directory).add SampleEscape.artifact SampleEscape.tree).2.2.node?
      SampleEscape.elsewhere = some (.file (Text.bytes SampleEscape.artifact.canonicalText)) :=
  ⟨⟨by decide, by decide, by decide⟩, by decide, rfl, rfl⟩

end ContractBuild.Store
