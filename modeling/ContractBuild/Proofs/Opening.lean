import ContractBuild.Proofs.Loads

/-! What opening a project comes to: the directories that it lacks are made, and its artifacts are
read in the tree that has them. -/

namespace ContractBuild.Project

open FileTree ContractBuild.Path

section Directories

variable {root : Location} {t : FileTree}

def directoriesAt (root : Location) : List Location :=
  [SourceSet.sourcesAt root, root ++ ["build"], artifactsAt root]

theorem isFileName_directoriesAt (hroot : ∀ n ∈ root, IsFileName n) :
    ∀ l ∈ directoriesAt root, ∀ n ∈ l, IsFileName n := by
  have hbuild : IsFileName "build" := by decide
  rw [directoriesAt, List.forall_mem_cons, List.forall_mem_cons, List.forall_mem_singleton]
  exact ⟨SourceSet.isFileName_sourcesAt hroot, IsFileName.concat hroot hbuild,
    isFileName_artifactsAt hroot⟩

theorem joinText_directories (hroot : ∀ n ∈ root, IsFileName n) :
    directories.map ((Path.absolute root).joinText ·) = (directoriesAt root).map .absolute := by
  have hbuild : (Path.absolute root).joinText "build" = .absolute (root ++ ["build"]) :=
    absolute_joinText hroot (by decide)
  have hartifacts : (Path.absolute root).joinText Store.projectDirectory =
      .absolute (artifactsAt root) := by
    have h := congrArg Store.directory (storeIn_absolute hroot)
    exact Option.some.inj h
  rw [directories, directoriesAt, List.map_cons, List.map_cons, List.map_singleton, hbuild,
    hartifacts, SourceSet.joinText_directory hroot]
  rfl

theorem makeDirectories_extends {names : List String} {locations : List Location}
    (hnames : names.map ((Path.absolute root).joinText ·) = locations.map .absolute)
    (hlocations : ∀ l ∈ locations, ∀ n ∈ l, IsFileName n) (ht : t.WellFormed) :
    Extends t (makeDirectories (.absolute root) t names).2 ∧
      ((∀ l ∈ locations, t.node? l = some .directory) →
        (makeDirectories (.absolute root) t names).2 = t) := by
  induction names generalizing t locations with
  | nil => exact ⟨.refl ht, fun _ => rfl⟩
  | cons name rest ih =>
    obtain ⟨l, more, rfl, hpath, hrest⟩ := List.map_eq_cons_iff.1 hnames.symm
    obtain ⟨hl, hmore⟩ := List.forall_mem_cons.1 hlocations
    have hfirst := FileTree.makeDirectories_extends ht (plain_absolute hl)
    have hsame := makeDirectories_of_directory ht hl
    have hjoined : (Path.absolute root).joinText name = .absolute l := hpath.symm
    rw [makeDirectories, hjoined]
    rcases hmade : t.makeDirectories (.absolute l) with ⟨_ | _, t'⟩
    · rw [hmade] at hfirst hsame
      exact ⟨hfirst, fun hd => hsame (hd l List.mem_cons_self)⟩
    · rw [hmade] at hfirst hsame
      dsimp only at hfirst hsame ⊢
      obtain ⟨hextends, hnone⟩ := ih hrest.symm hmore hfirst.wellFormed
      refine ⟨hfirst.trans hextends, fun hd => ?_⟩
      have hl' := hsame (hd l List.mem_cons_self)
      rw [hl'] at hnone ⊢
      exact hnone fun k hk => hd k (List.mem_cons_of_mem l hk)

end Directories

/-- What opening leaves: a project at rest, with the artifacts that were found once all directories
were there. -/
structure Opened (root : Location) (t made : FileTree) (p : Project) (t' : FileTree) : Prop where
  names : ∀ n ∈ root, IsFileName n
  extends_made : Extends t made
  made_eq : (∀ l ∈ directoriesAt root, t.node? l = some .directory) → made = t
  tree : t' = healedAt root made
  root_eq : p.root = .absolute root
  store : p.store = readAt root made
  scan : SourceSet.scan (.absolute root) t' = .ok p.sources
  idle : p.isActive = false

theorem ofStore_ok {root : Path} {name : Option String} {store : Store} {t : FileTree} {p : Project}
    (h : ofStore root name store t = .ok p) :
    p.root = root ∧ p.store = store ∧ SourceSet.scan root t = .ok p.sources ∧ p.isActive = false := by
  rw [ofStore] at h
  split at h
  · cases h
  · rename_i hscan
    cases h
    exact ⟨rfl, rfl, hscan, rfl⟩

theorem openAt_ok {path : Path} {name : Option String} {t t' : FileTree} {p : Project}
    (ht : t.WellFormed) (h : openAt path name t = (.ok p, t')) :
    ∃ root node made, t.find path = .ok (root, node) ∧ Opened root t made p t' := by
  rw [openAt, canonicalRoot, FileTree.canonical] at h
  cases hfind : t.find path with
  | error e =>
    rw [hfind] at h
    cases h
  | ok found =>
    obtain ⟨root, node⟩ := found
    have hroot := ht.names (find_eq_ok_iff.1 hfind).2
    obtain ⟨hextends, hsame⟩ := makeDirectories_extends (joinText_directories hroot)
      (isFileName_directoriesAt hroot) ht
    rw [hfind] at h
    dsimp only [Except.mapError] at h
    rcases hmade : makeDirectories (.absolute root) t directories with ⟨_ | _, made⟩
    · rw [hmade] at h
      cases h
    · rw [hmade, storeIn_absolute hroot] at h
      rw [hmade] at hextends hsame
      obtain ⟨hopened, rfl⟩ := Prod.mk.inj h
      obtain ⟨hat, hstore, hscan, hidle⟩ := ofStore_ok hopened
      exact ⟨root, node, made, rfl, hroot, hextends, hsame, rfl, hat, hstore, hscan, hidle⟩

theorem openAt_eq {path : Path} {root : Location} {node : Node} {t made : FileTree}
    {sources : SourceSet} (name : Option String) (hroot : ∀ n ∈ root, IsFileName n)
    (hfind : t.find path = .ok (root, node))
    (hmade : makeDirectories (.absolute root) t directories = (.ok (), made))
    (hscan : SourceSet.scan (.absolute root) (healedAt root made) = .ok sources) :
    openAt path name t =
      (.ok ⟨name.getD (nameOfDirectory ((Path.absolute root).segments.getLastD "")), .absolute root,
        sources, readAt root made, {}, .idle⟩, healedAt root made) := by
  rw [openAt, canonicalRoot, FileTree.canonical, hfind]
  dsimp only [Except.mapError]
  rw [hmade, storeIn_absolute hroot]
  dsimp only
  rw [healedAt, Store.healed] at hscan
  rw [ofStore, hscan]
  rfl

theorem Opened.wellFormed {root : Location} {t made t' : FileTree} {p : Project}
    (h : Opened root t made p t') : t'.WellFormed := by
  rw [h.tree]
  exact healedAt_wellFormed h.extends_made.wellFormed h.names

theorem Opened.onDisk?_of_some {root : Location} {t made t' : FileTree} {p : Project}
    (h : Opened root t made p t') {l : Location} {u : String} {a : Artifact}
    (ha : Store.onDisk? t' l u = some a) : Store.onDisk? t l u = some a := by
  rw [h.tree] at ha
  obtain ⟨_, htrim⟩ := healedAt_trimmed h.extends_made.wellFormed h.names
  rw [← Store.onDisk?_of_extends h.extends_made]
  exact htrim.onDisk?_of_some ha

end ContractBuild.Project
