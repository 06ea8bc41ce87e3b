import ContractBuild.Proofs.Identifiers
import ContractBuild.Proofs.Scanning

/-! A scan reads the whole source tree and nothing else, whatever the order in which the system lists
the directories. No path of a source is the name of a unit, so that a unit has the text of its file. -/

namespace ContractBuild.SourceSet

open FileTree ContractBuild.Path Source

section Trees

variable {order : Location → List String} {root : Path} {t : FileTree} {below : List String}
  {files : NameMap String} {text : String}

/-- No name on the way marks the file as internal. -/
structure SourceFile (root : Path) (t : FileTree) (below : List String) (text : String) : Prop where
  visible : ∀ n ∈ below, n.toList.head? ≠ some '_'
  named : ∃ stem, stem ≠ "" ∧ below.getLast? = some (stem ++ "." ++ fileExtension)
  file : ∃ l content, t.find (root.joinText directory) = .ok (l, .directory) ∧
    t.node? (l ++ below) = some (.file content) ∧ Text.ofBytes? content = some text

/-- The system takes the paths of all that has a source's name, and files among it hold UTF-8. -/
def Readable (root : Path) (t : FileTree) : Prop :=
  ∀ l, t.find (root.joinText directory) = .ok (l, .directory) → ∀ below, IsSource below →
    ∀ node, t.node? (l ++ below) = some node →
      Takes root below ∧ ∀ content, node = .file content → ∃ text, Text.ofBytes? content = some text

theorem isSource_iff : IsSource below ↔ (∀ n ∈ below, n.toList.head? ≠ some '_') ∧
    ∃ stem, stem ≠ "" ∧ below.getLast? = some (stem ++ "." ++ fileExtension) := by
  have hdot : '.' ∉ fileExtension.toList := by decide
  constructor
  · rintro ⟨hvisible, hextension⟩
    refine ⟨fun n hn => beq_eq_false_iff_ne.1 (hvisible n hn), ?_⟩
    obtain ⟨name, hname, hextension⟩ := Option.bind_eq_some_iff.1 hextension
    obtain ⟨heq, hstem⟩ := eq_of_extensionOf? hextension
    exact ⟨stemOf name, hstem, hname.trans (congrArg some heq)⟩
  · rintro ⟨hvisible, stem, hstem, hlast⟩
    refine ⟨fun n hn => beq_eq_false_iff_ne.2 (hvisible n hn), ?_⟩
    rw [hlast, Option.bind_some, extensionOf?, splitName_append hstem hdot]

theorem sourceFile_iff {l : Location} (hd : t.find (root.joinText directory) = .ok (l, .directory)) :
    SourceFile root t below text ↔ IsSource below ∧ ∃ content,
      t.node? (l ++ below) = some (.file content) ∧ Text.ofBytes? content = some text := by
  rw [isSource_iff]
  constructor
  · rintro ⟨hvisible, hnamed, l', content, hfind, hfile⟩
    cases hd.symm.trans hfind
    exact ⟨⟨hvisible, hnamed⟩, content, hfile⟩
  · rintro ⟨⟨hvisible, hnamed⟩, content, hfile⟩
    exact ⟨hvisible, hnamed, l, content, hd, hfile⟩

theorem sourceAt_iff {l : Location} (hreadable : Readable root t)
    (hd : t.find (root.joinText directory) = .ok (l, .directory)) :
    SourceAt root l t below text ↔ SourceFile root t below text := by
  rw [sourceFile_iff hd]
  constructor
  · rintro ⟨hsource, -, hfile⟩
    exact ⟨hsource, hfile⟩
  · rintro ⟨hsource, content, hnode, htext⟩
    exact ⟨hsource, (hreadable l hd below hsource _ hnode).1, content, hnode, htext⟩

theorem exists_text_of_listed {l : Location} (ht : t.WellFormed) (hreadable : Readable root t)
    (hd : t.find (root.joinText directory) = .ok (l, .directory)) (hlisted : Listed root l t below) :
    ∃ text, t.text (root.joinText (keyOf below)) = .ok text := by
  obtain ⟨node, hnode⟩ := hlisted.there
  obtain ⟨htakes, hutf8⟩ := hreadable l hd below hlisted.isSource node hnode
  cases node with
  | directory => exact absurd ⟨htakes, hnode⟩ hlisted.notEntered
  | file content =>
    obtain ⟨text, htext⟩ := hutf8 content rfl
    exact ⟨text, (text_joinText_iff ht hd hlisted).2
      ⟨hlisted.isSource, htakes, content, hnode, htext⟩⟩

theorem exists_scanAs (horder : Lists t order) (ht : t.WellFormed) (hreadable : Readable root t) :
    ∃ files, scanAs order root t = .ok (.ofFiles files) ∧ ∀ path text,
      files.get? path = some text ↔ ∃ below, path = keyOf below ∧ SourceFile root t below text := by
  by_cases hd : ∃ l, t.find (root.joinText directory) = .ok (l, .directory)
  · obtain ⟨l, hd⟩ := hd
    obtain ⟨sources, hscan⟩ := (scanAs_ok_iff horder ht hd).2 fun _ hlisted =>
      exists_text_of_listed ht hreadable hd hlisted
    obtain ⟨files, rfl⟩ := scanAs_ok hscan
    refine ⟨files, hscan, fun path text => ?_⟩
    rw [get?_scanAs_iff horder ht hd hscan]
    simp only [sourceAt_iff hreadable hd]
  · refine ⟨{}, scanAs_of_no_directory fun l hl => hd ⟨l, hl⟩, fun path text => ?_⟩
    refine iff_of_false nofun ?_
    rintro ⟨below, -, hfile⟩
    obtain ⟨l, content, hfind, -⟩ := hfile.file
    exact hd ⟨l, hfind⟩

theorem pathsApart_of_slash (h : ∀ path text, files.get? path = some text → '/' ∈ path.toList) :
    (ofFiles files).PathsApart := by
  intro path hpath
  obtain ⟨text, htext⟩ := NameMap.contains_iff.1 hpath
  rw [Bool.eq_false_iff]
  intro hunit
  obtain ⟨source, hsource⟩ := containsUnit_iff.1 hunit
  obtain ⟨_, _, d, hd, rfl⟩ := declared_at_path hsource
  exact (isIdentifier_of_mem_declarations hd).noSlash (h _ text htext)

/-- The order in which directories are listed does not matter. -/
theorem scan_reads_source_tree (horder : Lists t order) (ht : t.WellFormed)
    (hreadable : Readable root t) : ∃ files, scanAs order root t = .ok (.ofFiles files) ∧
      scan root t = .ok (.ofFiles files) ∧
      (∀ path text, files.get? path = some text ↔
        ∃ below, path = keyOf below ∧ SourceFile root t below text) ∧
      (ofFiles files).PathsApart ∧
      ∀ u path, (ofFiles files).path? u = some path →
        ∃ text, files.get? path = some text ∧ (ofFiles files).text? u = some text := by
  obtain ⟨files, hscan, hfiles⟩ := exists_scanAs horder ht hreadable
  obtain ⟨files', hscan', hfiles'⟩ := exists_scanAs (lists_children t) ht hreadable
  have hsame : files' = files := by
    refine NameMap.ext_get? fun path => Option.ext fun text => ?_
    rw [hfiles', hfiles]
  have hapart : (ofFiles files).PathsApart := by
    refine pathsApart_of_slash fun path text htext => ?_
    obtain ⟨below, rfl, hfile⟩ := (hfiles path text).1 htext
    obtain ⟨stem, -, hlast⟩ := hfile.named
    exact slash_mem_keyOf (List.ne_nil_of_mem (List.mem_of_getLast? hlast))
  refine ⟨files, hscan, hsame ▸ hscan', hfiles, hapart, fun u path hpath => ?_⟩
  obtain ⟨text, htext, -⟩ := declared_at_path hpath
  exact ⟨text, htext, (text?_of_unit hapart hpath).trans htext⟩

end Trees

namespace SampleTree

def tree : FileTree where
  nodes :=
    [(["p"], .directory), (["p", "contracts"], .directory),
      (["p", "contracts", "lib"], .directory),
      (["p", "contracts", "lib", "_x.sol"], .file [255]),
      (["p", "contracts", "lib", "c.sol"], .file (Text.bytes "contract C \x7b\x7d")),
      (["p", "contracts", "d.sol"], .directory),
      (["p", "contracts", "d.sol", "e.sol"], .file (Text.bytes "contract A \x7b\x7d")),
      (["p", "contracts", "_in"], .directory),
      (["p", "contracts", "_in", "f.sol"], .file [255]),
      (["p", "contracts", ".sol"], .file [255]),
      (["p", "contracts", "a.sol"], .file (Text.bytes "contract A \x7b\x7d"))]
  workingDirectory := []

def root : Path := .absolute ["p"]

def backwards (l : Location) : List String := (tree.children l).reverse

theorem tree_wellFormed : tree.WellFormed := ⟨by decide, by decide, by decide⟩

theorem tree_readable : Readable root tree := by
  have hfind : tree.find (root.joinText directory) = .ok (["p", "contracts"], .directory) := by decide
  have hall : ∀ e ∈ tree.nodes, IsSource (e.1.drop 2) → Takes root (e.1.drop 2) ∧
      (e.2 = .directory ∨ ∃ text ∈ ["contract A \x7b\x7d", "contract C \x7b\x7d"],
        e.2 = .file (Text.bytes text)) := by decide
  intro l hl below hsource node hnode
  cases hfind.symm.trans hl
  obtain ⟨htakes, hkind⟩ := hall _ (mem_nodes_of_node? (List.cons_ne_nil _ _) hnode) hsource
  refine ⟨htakes, ?_⟩
  rintro content rfl
  rcases hkind with hdirectory | ⟨text, -, hfile⟩
  · cases hdirectory
  · cases hfile
    exact ⟨text, Text.ofBytes?_bytes text⟩

end SampleTree

theorem scan_reads_source_tree_backwards :
    Lists SampleTree.tree SampleTree.backwards ∧ SampleTree.tree.WellFormed ∧
    Readable SampleTree.root SampleTree.tree ∧
    ∃ files, scanAs SampleTree.backwards SampleTree.root SampleTree.tree = .ok (.ofFiles files) ∧
      files.names = ["contracts/a.sol", "contracts/d.sol/e.sol", "contracts/lib/c.sol"] ∧
      (ofFiles files).path? "A" = some "contracts/a.sol" := by
  have hlists : Lists SampleTree.tree SampleTree.backwards := fun _ _ => List.mem_reverse
  refine ⟨hlists, SampleTree.tree_wellFormed, SampleTree.tree_readable, ?_⟩
  obtain ⟨files, hscan, hsame, -⟩ :=
    scan_reads_source_tree hlists SampleTree.tree_wellFormed SampleTree.tree_readable
  have hscanned : (scan SampleTree.root SampleTree.tree).toOption.map
      (fun s => (s.files.names, s.path? "A")) =
        some (["contracts/a.sol", "contracts/d.sol/e.sol", "contracts/lib/c.sol"],
          some "contracts/a.sol") := by decide
  rw [hsame] at hscanned
  obtain ⟨hnames, hpath⟩ := Prod.mk.inj (Option.some.inj hscanned)
  exact ⟨files, hscan, hnames, hpath⟩

end ContractBuild.SourceSet
