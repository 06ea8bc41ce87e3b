import ContractBuild.Proofs.Loads

/-! Memory and disk after a load. What is taken out of memory keeps its file, so the directory holds
the artifacts of the project and, beside them, those that were taken out and not built anew. -/

namespace ContractBuild

open FileTree ContractBuild.Path Store

def Compiler.Storable (compiler : Compiler) : Prop :=
  ∀ request artifacts, compiler request = .ok artifacts →
    ∀ u a, artifacts.get? u = some a → IsUnitName u ∧ a.ReadsBack

theorem Compiler.Storable.entries {compiler : Compiler} (h : compiler.Storable)
    {request : CompileRequest} {artifacts : NameMap Artifact}
    (hanswer : compiler request = .ok artifacts) (sources : SourceSet) (minified : Bool) :
    (∀ e ∈ artifacts.entries, IsUnitName e.1) ∧
      ∀ e ∈ artifacts.entries, (e.2.adopted e.1 sources minified).ReadsBack := by
  have hentry := fun (e : String × Artifact) he =>
    h request artifacts hanswer e.1 e.2 (NameMap.get?_eq_some_iff.2 he)
  exact ⟨fun e he => (hentry e he).1, fun e he => (hentry e he).2.adopted e.1 sources minified⟩

theorem Compiler.Faithful.storable {compiler : Compiler} (h : compiler.Faithful) :
    compiler.Storable := by
  intro request artifacts hanswer u a ha
  have hname := h.exact.isIdentifier hanswer ha
  exact ⟨⟨hname.ne_empty, hname.noSlash⟩, (h.answers request artifacts hanswer u a ha).readsBack⟩

theorem Compiler.outline_storable : Compiler.outline.Storable := outline_faithful.storable

/-- The artifacts of one store in front of those of another one. -/
def Store.over (s old : Store) : Store :=
  { s with entries := .ofList (old.entries.entries ++ s.entries.entries) }

theorem Store.get?_over (s old : Store) (u : String) :
    (s.over old).get? u = (s.get? u).or (old.get? u) := by
  rw [get?, Store.over, NameMap.get?_ofList, List.reverse_append, List.lookup_append,
    NameMap.lookup_reverse_entries, NameMap.lookup_reverse_entries, get?, get?]

/-- A directory whose files hold the artifacts of a store, and no others. -/
structure Store.Mirrored (s : Store) (l : Location) (t : FileTree) : Prop where
  directory : s.directory = some (.absolute l)
  wellFormed : t.WellFormed
  tidy : Tidy t l
  onDisk?_eq : ∀ u, onDisk? t l u = s.get? u

theorem Store.Mirrored.keyedByName {s : Store} {l : Location} {t : FileTree} (h : s.Mirrored l t) :
    s.KeyedByName := by
  intro u a ha
  rw [← h.onDisk?_eq] at ha
  exact name_of_onDisk? ha

theorem Store.found_mirrored {t : FileTree} {l : Location} (root : Path) (ht : t.WellFormed)
    (hl : ∀ n ∈ l, IsFileName n) : (found root l t).Mirrored l (healed root l t) :=
  ⟨rfl, (load_trimmed root ht hl).wellFormed, tidy_healed root ht hl,
    fun u => (get?_found ht hl u).symm⟩

theorem Store.Mirrored.of_sameFiles {s : Store} {l : Location} {t t' : FileTree}
    (h : s.Mirrored l t) (ht : t'.WellFormed)
    (hfiles : ∀ k content, t'.node? k = some (.file content) ↔ t.node? k = some (.file content)) :
    s.Mirrored l t' := by
  have hdisk := onDisk?_of_sameFiles hfiles l
  refine ⟨h.directory, ht, ?_, fun u => (hdisk u).trans (h.onDisk?_eq u)⟩
  intro name content hext hfits hnode
  rw [hdisk]
  exact h.tidy name content hext hfits ((hfiles _ _).1 hnode)

section Round

variable {sources : SourceSet} {store : Store} {compiler : Compiler} {settings : Settings}
  {t : FileTree} {l : Location} {summary : BuildSummary}

theorem Store.Mirrored.kept (h : store.Mirrored l t) :
    ((keptStore sources store settings).over store).Mirrored l t := by
  refine ⟨h.directory, h.wellFormed, h.tidy, fun u => ?_⟩
  rw [h.onDisk?_eq, get?_over, get?_keptStore]
  split
  · exact Option.none_or.symm
  · exact Option.or_self.symm

theorem Store.Mirrored.installed {s s' : Store} {minified : Bool} {entries : List (String × Artifact)}
    {t' : FileTree} (hl : ∀ n ∈ l, IsFileName n) (hs : (s.over store).Mirrored l t)
    (h : s.install sources minified t entries = (.ok (), s', t'))
    (hnames : ∀ e ∈ entries, IsUnitName e.1)
    (hread : ∀ e ∈ entries, (e.2.adopted e.1 sources minified).ReadsBack) :
    (s'.over store).Mirrored l t' := by
  have hdirectory : s.directory = some (.absolute l) := hs.directory
  have hstored := install_ok h
  refine ⟨?_, install_wellFormed hs.wellFormed hl hdirectory h,
    install_tidy hs.wellFormed hl hdirectory h hnames hread hs.tidy, fun u => ?_⟩
  · rw [hstored]
    exact hdirectory
  · have hget : s'.get? u =
        ((adoptedEntries sources minified entries).reverse.lookup u).or (s.get? u) := by
      rw [hstored, get?, NameMap.get?_foldl_insert, get?]
    rw [onDisk?_install_eq hs.wellFormed hl hdirectory h hnames hread, hs.onDisk?_eq, get?_over,
      get?_over, hget, Option.or_assoc]

theorem Store.Mirrored.round (hl : ∀ n ∈ l, IsFileName n) (hstore : store.Mirrored l t)
    (hcompiler : compiler.Storable)
    (h : (rebuild sources store compiler settings t).result = .ok summary) :
    ((rebuild sources store compiler settings t).store.over store).Mirrored l
      (rebuild sources store compiler settings t).tree := by
  obtain ⟨-, -, hround⟩ := rebuild_ok h
  rcases hround with ⟨-, -, hmemory, htree⟩ | ⟨request, artifacts, -, hanswer, -, hinstall⟩
  · rw [hmemory, htree]
    exact hstore.kept
  · obtain ⟨hnames, hread⟩ := hcompiler.entries hanswer sources settings.minifySource
    exact hstore.kept.installed hl hinstall hnames hread

theorem Store.Mirrored.failed_round (hl : ∀ n ∈ l, IsFileName n) (hstore : store.Mirrored l t)
    (hcompiler : compiler.Storable) {e : StoreError}
    (h : (rebuild sources store compiler settings t).result = .error (.store e)) :
    ((rebuild sources store compiler settings t).store.over store).Mirrored l
      (rebuild sources store compiler settings t).tree := by
  obtain ⟨request, artifacts, -, hanswer, hinstall⟩ := rebuild_store_error h
  obtain ⟨hnames, hread⟩ := hcompiler.entries hanswer sources settings.minifySource
  obtain ⟨written, u, a, rest, t₁, hentries, hwritten, hfailed⟩ := install_error hinstall
  have hmem : ∀ e ∈ written, e ∈ artifacts.entries := by
    intro e he
    rw [hentries]
    exact List.mem_append_left _ he
  have hs := hstore.kept.installed hl hwritten (fun e he => hnames e (hmem e he))
    fun e he => hread e (hmem e he)
  have hdirectory : (rebuild sources store compiler settings t).store.directory =
      some (.absolute l) := hs.directory
  have hextends := add_error_extends hs.wellFormed hl hdirectory hfailed
  exact hs.of_sameFiles hextends.wellFormed fun _ _ => hextends.node?_file_iff

theorem onDisk?_rebuild (hl : ∀ n ∈ l, IsFileName n) (hstore : store.Mirrored l t)
    (hcompiler : compiler.Storable)
    (h : (rebuild sources store compiler settings t).result = .ok summary) (u : String) :
    onDisk? (rebuild sources store compiler settings t).tree l u =
      ((rebuild sources store compiler settings t).store.get? u).or (store.get? u) := by
  rw [(hstore.round hl hcompiler h).onDisk?_eq, get?_over]

theorem onDisk?_rebuild_eq_get?_iff (hl : ∀ n ∈ l, IsFileName n) (hstore : store.Mirrored l t)
    (hcompiler : compiler.Storable)
    (h : (rebuild sources store compiler settings t).result = .ok summary) :
    (∀ u, onDisk? (rebuild sources store compiler settings t).tree l u =
        (rebuild sources store compiler settings t).store.get? u) ↔
      ∀ u ∈ summary.closure, store.contains u = true → u ∈ summary.installed := by
  constructor
  · intro hsame u hclosure hread
    obtain ⟨a, ha⟩ := NameMap.contains_iff.1 hread
    rcases get?_rebuild h u with ⟨-, hgone⟩ | ⟨_, _, _, -, -, -, hin, -⟩
    · have hboth := hsame u
      rw [onDisk?_rebuild hl hstore hcompiler h, hgone, if_pos hclosure, Option.none_or] at hboth
      cases hboth.symm.trans ha
    · exact hin
  · intro hall u
    rw [onDisk?_rebuild hl hstore hcompiler h]
    rcases get?_rebuild h u with ⟨hout, hget⟩ | ⟨_, _, _, -, -, -, -, hget⟩
    · rw [hget]
      split
      · rename_i hclosure
        cases hread : store.get? u with
        | none => rfl
        | some a => exact absurd (hall u hclosure (NameMap.contains_iff.2 ⟨a, hread⟩)) hout
      · exact Option.or_self
    · rw [hget, Option.some_or]

theorem found_rebuild_eq_iff (root : Path) (hl : ∀ n ∈ l, IsFileName n) (hstore : store.Mirrored l t)
    (hcompiler : compiler.Storable)
    (h : (rebuild sources store compiler settings t).result = .ok summary)
    (hleft : ∀ u ∈ summary.closure, u ∉ summary.installed → ∀ a, store.get? u = some a →
      (rebuild sources store compiler settings t).tree.pathExists
        (root.joinText a.sourcePath) = true) :
    (found root l (rebuild sources store compiler settings t).tree).entries =
        (rebuild sources store compiler settings t).store.entries ↔
      (∀ u ∈ summary.closure, store.contains u = true → u ∈ summary.installed) ∧
        ∀ u a, (rebuild sources store compiler settings t).store.get? u = some a →
          (rebuild sources store compiler settings t).tree.pathExists
            (root.joinText a.sourcePath) = true := by
  obtain ⟨-, ht, htidy, -⟩ := hstore.round hl hcompiler h
  have hagree := onDisk?_rebuild_eq_get?_iff hl hstore hcompiler h
  constructor
  · intro hsame
    have hget : ∀ u, (found root l (rebuild sources store compiler settings t).tree).get? u =
        (rebuild sources store compiler settings t).store.get? u := by
      intro u
      rw [Store.get?, hsame, Store.get?]
    have hsources : ∀ u a, (rebuild sources store compiler settings t).store.get? u = some a →
        (rebuild sources store compiler settings t).tree.pathExists
          (root.joinText a.sourcePath) = true := by
      intro u a ha
      rw [← hget, get?_found ht hl] at ha
      exact source_of_load ht hl ha
    refine ⟨hagree.1 fun u => ?_, hsources⟩
    rw [← hget, get?_found_of_tidy ht hl htidy]
    intro v a ha
    rw [onDisk?_rebuild hl hstore hcompiler h, Option.or_eq_some_iff] at ha
    rcases ha with ha | ⟨hnone, ha⟩
    · exact hsources v a ha
    · -- An artifact that is on disk only was left behind by the eviction.
      rcases get?_rebuild h v with ⟨hout, hget⟩ | ⟨_, _, _, -, -, -, -, hget⟩
      · by_cases hclosure : v ∈ summary.closure
        · exact hleft v hclosure hout a ha
        · rw [if_neg hclosure, hnone, ha] at hget
          cases hget
      · rw [hnone] at hget
        cases hget
  · rintro ⟨hall, hsources⟩
    have hdisk := hagree.2 hall
    apply NameMap.ext_get?
    intro u
    show (found root l _).get? u = Store.get? _ u
    rw [← hdisk u]
    refine get?_found_of_tidy ht hl htidy (fun v a ha => hsources v a ?_) u
    rw [← hdisk v, ha]

end Round

theorem Store.Mirrored.outside {s : Store} {l : Location} {t : FileTree} (hs : s.Mirrored l t)
    (root : Path) (h : (s.entries.entries.all fun e =>
      match t.locate (root.joinText e.2.sourcePath) with
      | .ok k => !l.isPrefixOf k
      | .error _ => true) = true) : Outside root l t := by
  intro u a ha name hlocate
  rw [hs.onDisk?_eq] at ha
  have hentry := List.all_eq_true.1 h (u, a) (NameMap.get?_eq_some_iff.1 ha)
  rw [hlocate] at hentry
  dsimp only at hentry
  rw [List.isPrefixOf_iff_prefix.2 (List.prefix_append _ _)] at hentry
  cases hentry

namespace Project

section Reading

variable {root : Location} {s : Store} {t t' : FileTree}

theorem readAt_of_mirrored (hroot : ∀ n ∈ root, IsFileName n)
    (hs : s.Mirrored (artifactsAt root) t)
    (hsources : ∀ u a, s.get? u = some a →
      t.pathExists ((Path.absolute root).joinText a.sourcePath) = true) :
    readAt root t = s ∧ healedAt root t = t := by
  have hl := isFileName_artifactsAt hroot
  have hdisk : ∀ u a, onDisk? t (artifactsAt root) u = some a →
      t.pathExists ((Path.absolute root).joinText a.sourcePath) = true := by
    intro u a ha
    rw [hs.onDisk?_eq] at ha
    exact hsources u a ha
  refine ⟨?_, healed_eq hs.wellFormed hl hs.tidy hdisk⟩
  have hentries : (readAt root t).entries = s.entries := by
    apply NameMap.ext_get?
    intro u
    show (found _ _ t).get? u = s.get? u
    rw [get?_found_of_tidy hs.wellFormed hl hs.tidy hdisk, hs.onDisk?_eq]
  obtain ⟨directory, entries⟩ := s
  cases hs.directory
  cases hentries
  rfl

theorem roundAt_of_mirrored (hroot : ∀ n ∈ root, IsFileName n)
    (hs : s.Mirrored (artifactsAt root) t)
    (hsources : ∀ u a, s.get? u = some a →
      t.pathExists ((Path.absolute root).joinText a.sourcePath) = true)
    (sources : SourceSet) (compiler : FileTree → Compiler) (settings : Settings) :
    roundAt root sources compiler settings t = rebuild sources s (compiler t) settings t := by
  obtain ⟨hread, hleft⟩ := readAt_of_mirrored hroot hs hsources
  rw [roundAt, hread, hleft]

theorem readAt_eq_filter (hroot : ∀ n ∈ root, IsFileName n) (hs : s.Mirrored (artifactsAt root) t)
    (hout : Outside (.absolute root) (artifactsAt root) t) :
    readAt root t = { s with
      entries := s.entries.filter fun _ a =>
        t.pathExists ((Path.absolute root).joinText a.sourcePath) } := by
  have hl := isFileName_artifactsAt hroot
  have hentries : (readAt root t).entries = s.entries.filter fun _ a =>
      t.pathExists ((Path.absolute root).joinText a.sourcePath) := by
    refine NameMap.ext_get? fun u => Option.ext fun a => ?_
    have hread : (readAt root t).entries.get? u = onDisk? (healedAt root t) (artifactsAt root) u :=
      get?_found hs.wellFormed hl u
    have hdisk := hs.onDisk?_eq u
    rw [Store.get?] at hdisk
    rw [hread, healedAt, onDisk?_healed_iff hs.wellFormed hl hout, hdisk, NameMap.get?_filter,
      Option.filter_eq_some_iff]
  rw [← hentries, hs.directory]
  rfl

theorem load_of_mirrored (p : Project) (registry : Registry) (compiler : FileTree → Compiler)
    (settings : Settings) {files : NameMap String} (hroot : ∀ n ∈ root, IsFileName n)
    (hp : p.root = .absolute root) (hidle : p.isActive = false)
    (hname : registry.contains p.name = false) (hs : s.Mirrored (artifactsAt root) t)
    (hsources : ∀ u a, s.get? u = some a →
      t.pathExists ((Path.absolute root).joinText a.sourcePath) = true)
    (hscan : SourceSet.scan (.absolute root) t = .ok (.ofFiles files)) :
    let r := rebuild (.ofFiles files) s (compiler t) settings t
    let loaded := p.load registry compiler settings t
    loaded.project.root = .absolute root ∧ loaded.project.sources = .ofFiles files ∧
      loaded.project.store = r.store ∧ loaded.tree = r.tree ∧ loaded.request? = r.request? ∧
      (∀ e, r.result = .error e → loaded.result = .error e) ∧
      ∀ inner, r.result = .ok inner →
        ∃ discarded handles, loaded.result = .ok { inner with discarded, handles } := by
  obtain ⟨hran, hended⟩ := load_of_round registry compiler settings hroot hp hidle hname hscan
  obtain ⟨-, hat, hsourced, hstore, htree, hrequest⟩ := hran
  rw [roundAt_of_mirrored hroot hs hsources] at hstore htree hrequest hended
  exact ⟨hat, hsourced, hstore, htree, hrequest, hended⟩

structure Edited (root : Location) (t t' : FileTree) : Prop where
  wellFormed : t'.WellFormed
  node?_eq : ∀ k, ¬ root ++ [SourceSet.directory] <+: k → t'.node? k = t.node? k

theorem Edited.trans {t'' : FileTree} (h : Edited root t t') (h' : Edited root t' t'') :
    Edited root t t'' :=
  ⟨h'.wellFormed, fun k hk => (h'.node?_eq k hk).trans (h.node?_eq k hk)⟩

theorem Edited.node?_artifact (h : Edited root t t') (name : String) :
    t'.node? (artifactsAt root ++ [name]) = t.node? (artifactsAt root ++ [name]) := by
  apply h.node?_eq
  rw [artifactsAt, List.append_assoc, List.prefix_append_right_inj]
  intro hprefix
  exact absurd (List.cons_prefix_cons.1 hprefix).1 (by decide)

theorem Edited.onDisk?_eq (h : Edited root t t') (u : String) :
    onDisk? t' (artifactsAt root) u = onDisk? t (artifactsAt root) u :=
  onDisk?_congr (h.node?_artifact _)

theorem Edited.mirrored (h : Edited root t t') (hs : s.Mirrored (artifactsAt root) t) :
    s.Mirrored (artifactsAt root) t' := by
  refine ⟨hs.directory, h.wellFormed, ?_, fun u => (h.onDisk?_eq u).trans (hs.onDisk?_eq u)⟩
  intro name content hext hfits hnode
  rw [h.node?_artifact] at hnode
  rw [h.onDisk?_eq]
  exact hs.tidy name content hext hfits hnode

theorem edited_removeFile {l : Location} (ht : t.WellFormed) (hl : ∀ n ∈ l, IsFileName n)
    (hbelow : root ++ [SourceSet.directory] <+: l) (h : t.removeFile (.absolute l) = .ok t') :
    Edited root t t' := by
  rw [removeFile] at h
  split at h
  · cases h
  · cases h
  · rename_i k content hfind
    cases h
    obtain ⟨-, rfl, hnode⟩ := (find_absolute_iff ht hl).1 hfind
    have hne : t.node? k ≠ some .directory := by
      rw [hnode]
      rintro ⟨⟩
    refine ⟨ht.removeAt hne, fun j hj => ?_⟩
    rw [node?_removeAt hne, if_neg]
    rintro rfl
    exact hj hbelow

theorem edited_writeFile {l : Location} {content : List UInt8} (ht : t.WellFormed)
    (hl : ∀ n ∈ l, IsFileName n) (hbelow : root ++ [SourceSet.directory] <+: l)
    (h : t.writeFile (.absolute l) content = .ok t') : Edited root t t' := by
  obtain ⟨ht', k, hlocate, -, hnode⟩ := writeFile_ok ht (plain_absolute hl) h
  obtain ⟨rfl, -⟩ := locate_absolute_ok hl hlocate
  refine ⟨ht', fun j hj => ?_⟩
  rw [hnode, if_neg]
  rintro rfl
  exact hj hbelow

end Reading

/-- Memory and a fresh store differ in evicted units that were not installed again, and in lost
sources. -/
theorem fresh_store_agrees_iff {root : Location} {p : Project} {registry : Registry}
    {compiler : FileTree → Compiler} {settings : Settings} {t : FileTree} {summary : BuildSummary}
    (ht : t.WellFormed) (hroot : ∀ n ∈ root, IsFileName n) (hp : p.root = .absolute root)
    (hcompiler : ∀ t, (compiler t).Storable)
    (h : (p.load registry compiler settings t).result = .ok summary) :
    let loaded := p.load registry compiler settings t
    let memory := loaded.project.store
    let read := readAt root t
    let fresh := ((storeIn loaded.project.root).load loaded.project.root loaded.tree).2.1
    let sourced := fun a : Artifact =>
      loaded.tree.pathExists (loaded.project.root.joinText a.sourcePath) = true
    (∀ u, onDisk? loaded.tree (artifactsAt root) u = (memory.get? u).or (read.get? u)) ∧
    ((∀ u ∈ summary.closure, u ∉ summary.installed → ∀ a, read.get? u = some a → sourced a) →
      (fresh.entries = memory.entries ↔
        (∀ u ∈ summary.closure, read.contains u = true → u ∈ summary.installed) ∧
          ∀ u a, memory.get? u = some a → sourced a)) := by
  have hl := isFileName_artifactsAt hroot
  obtain ⟨files, inner, hran, hresult, -, hclosure, hinstalled⟩ := load_ok hroot hp h
  have hstore : (readAt root t).Mirrored (artifactsAt root) (healedAt root t) :=
    found_mirrored _ ht hl
  have hround := found_rebuild_eq_iff (.absolute root) hl hstore (hcompiler _) hresult
  have hdisk := onDisk?_rebuild hl hstore (hcompiler _) hresult
  generalize p.load registry compiler settings t = loaded at hran ⊢
  obtain ⟨-, hat, -, hmemory, htree, -⟩ := hran
  rw [roundAt] at hmemory htree
  rw [← hmemory, ← htree] at hdisk
  rw [← hmemory, ← htree, ← hinstalled, ← hclosure] at hround
  dsimp only
  rw [hat, storeIn_absolute hroot]
  exact ⟨hdisk, hround⟩

namespace Sample

def root : Location := ["p"]

def sourceAt (name : String) : Location := root ++ [SourceSet.directory, name]

def start : FileTree :=
  ⟨[(root, .directory), (root ++ ["build"], .directory), (artifactsAt root, .directory),
    (root ++ [SourceSet.directory], .directory),
    (sourceAt "D.sol", .file (Text.bytes "contract D \x7b uint a; \x7d")),
    (sourceAt "M.sol", .file (Text.bytes "contract M is D \x7b\x7d"))], []⟩

def project : Project := ⟨"P", .absolute root, default, .inMemory, {}, .idle⟩

def write (t : FileTree) (name text : String) : FileTree :=
  (t.writeFile (.absolute (sourceAt name)) (Text.bytes text)).toOption.getD t

def round (files : List (String × String)) (store : Store) (t : FileTree) : Rebuilt :=
  rebuild (.ofFiles (.ofList files)) store Compiler.outline {} t

def unbuilt : Store := .persistent (.absolute (artifactsAt root))

def startFiles : List (String × String) :=
  [("contracts/D.sol", "contract D \x7b uint a; \x7d"),
    ("contracts/M.sol", "contract M is D \x7b\x7d")]

def firstRound : Rebuilt := round startFiles unbuilt start

def firstSummary : BuildSummary :=
  { stale := .ofList ["D", "M"], closure := .ofList ["D", "M"]
    compiledPaths := ["contracts/D.sol", "contracts/M.sol"], installed := ["D", "M"] }

def edited : FileTree :=
  write (write firstRound.tree "M.sol" "") "D.sol" "contract D \x7b uint b; \x7d"

def editedFiles : List (String × String) :=
  [("contracts/D.sol", "contract D \x7b uint b; \x7d"), ("contracts/M.sol", "")]

def secondRound : Rebuilt := round editedFiles (firstRound.store.over unbuilt) edited

def secondSummary : BuildSummary :=
  { stale := .ofList ["D"], closure := .ofList ["D", "M"], compiledPaths := ["contracts/D.sol"]
    installed := ["D"] }

theorem names_root : ∀ n ∈ root, IsFileName n := by decide

theorem names_artifacts : ∀ n ∈ artifactsAt root, IsFileName n := isFileName_artifactsAt names_root

theorem start_wellFormed : start.WellFormed :=
  ⟨by decide, by decide, by decide⟩

theorem start_mirrored : unbuilt.Mirrored (artifactsAt root) start := by
  have hread : readAt root start = unbuilt ∧ healedAt root start = start := by decide
  have h := found_mirrored (.absolute root) start_wellFormed names_artifacts
  rw [← hread.1]
  exact hread.2 ▸ h

def Leads (files : List (String × String)) (s : Store) (t : FileTree)
    (result : Except ProjectError BuildSummary) : Prop :=
  (∀ e ∈ s.entries.entries,
      t.pathExists ((Path.absolute root).joinText e.2.sourcePath) = true) ∧
    SourceSet.scan (.absolute root) t = .ok (.ofFiles (.ofList files)) ∧
    (round files s t).result = result

instance (files : List (String × String)) (s : Store) (t : FileTree)
    (result : Except ProjectError BuildSummary) : Decidable (Leads files s t result) :=
  inferInstanceAs (Decidable (_ ∧ _ ∧ _))

theorem Leads.load {files : List (String × String)} {s : Store} {t : FileTree}
    {result : Except ProjectError BuildSummary} (h : Leads files s t result)
    (hs : s.Mirrored (artifactsAt root) t) :
    let loaded := project.load {} (fun _ => Compiler.outline) {} t
    loaded.project.root = .absolute root ∧ loaded.project.store = (round files s t).store ∧
      loaded.tree = (round files s t).tree ∧ (∀ e, result = .error e → loaded.result = .error e) ∧
      ∀ summary, result = .ok summary →
        ∃ discarded handles, loaded.result = .ok { summary with discarded, handles } := by
  obtain ⟨hsources, hscan, rfl⟩ := h
  obtain ⟨hroot, -, hstore, htree, -, hended⟩ :=
    load_of_mirrored project {} (fun _ => Compiler.outline) {} names_root rfl rfl rfl hs
      (fun u a ha => hsources (u, a) (NameMap.get?_eq_some_iff.1 ha)) hscan
  exact ⟨hroot, hstore, htree, hended⟩

theorem Leads.sources {files : List (String × String)} {s : Store} {t : FileTree}
    {result : Except ProjectError BuildSummary} (h : Leads files s t result)
    (hs : s.Mirrored (artifactsAt root) t) :
    (project.load {} (fun _ => Compiler.outline) {} t).project.sources =
      .ofFiles (.ofList files) :=
  (load_of_mirrored project {} (fun _ => Compiler.outline) {} names_root rfl rfl rfl hs
    (fun u a ha => h.1 (u, a) (NameMap.get?_eq_some_iff.1 ha)) h.2.1).2.1

theorem Leads.mirrored {files : List (String × String)} {s : Store} {t : FileTree}
    {summary : BuildSummary} (h : Leads files s t (.ok summary))
    (hs : s.Mirrored (artifactsAt root) t) :
    ((round files s t).store.over s).Mirrored (artifactsAt root) (round files s t).tree :=
  hs.round names_artifacts Compiler.outline_storable h.2.2

theorem Leads.failed_mirrored {files : List (String × String)} {s : Store} {t : FileTree}
    {e : StoreError} (h : Leads files s t (.error (.store e)))
    (hs : s.Mirrored (artifactsAt root) t) :
    ((round files s t).store.over s).Mirrored (artifactsAt root) (round files s t).tree :=
  hs.failed_round names_artifacts Compiler.outline_storable h.2.2

theorem Leads.readAt {files : List (String × String)} {s : Store} {t : FileTree}
    {result : Except ProjectError BuildSummary} (h : Leads files s t result)
    (hs : s.Mirrored (artifactsAt root) t) : readAt root t = s :=
  (readAt_of_mirrored names_root hs fun u a ha =>
    h.1 (u, a) (NameMap.get?_eq_some_iff.1 ha)).1

theorem isFileName_sourceAt {name : String} (hname : IsFileName name) :
    ∀ n ∈ sourceAt name, IsFileName n := by
  rw [sourceAt, List.forall_mem_append, List.forall_mem_cons, List.forall_mem_singleton]
  exact ⟨names_root, SourceSet.isFileName_directory, hname⟩

theorem write_edited {t : FileTree} (ht : t.WellFormed) {name : String} (hname : IsFileName name)
    (text : String) : Edited root t (write t name text) := by
  rw [write]
  cases hwritten : t.writeFile (.absolute (sourceAt name)) (Text.bytes text) with
  | error e => exact ⟨ht, fun _ _ => rfl⟩
  | ok t' =>
    refine edited_writeFile ht (isFileName_sourceAt hname) ?_ hwritten
    exact ⟨[name], by rw [sourceAt, List.append_assoc, List.singleton_append]⟩

theorem first_leads : Leads startFiles unbuilt start (.ok firstSummary) := by decide

theorem first_sources : ∀ e ∈ (round startFiles unbuilt start).store.entries.entries,
    (round startFiles unbuilt start).tree.pathExists
      ((Path.absolute root).joinText e.2.sourcePath) = true := by decide

theorem first_mirrored :
    (firstRound.store.over unbuilt).Mirrored (artifactsAt root) firstRound.tree :=
  first_leads.mirrored start_mirrored

theorem edited_after_first : Edited root firstRound.tree edited := by
  have h := write_edited first_mirrored.wellFormed (by decide : IsFileName "M.sol") ""
  exact h.trans (write_edited h.wellFormed (by decide) _)

theorem edited_mirrored : (firstRound.store.over unbuilt).Mirrored (artifactsAt root) edited :=
  edited_after_first.mirrored first_mirrored

theorem edited_outside : Outside (.absolute root) (artifactsAt root) edited :=
  edited_mirrored.outside _ (by decide)

theorem second_round :
    Leads editedFiles (firstRound.store.over unbuilt) edited (.ok secondSummary) ∧
    secondRound.store.contains "M" = false ∧
    (secondRound.store.over (firstRound.store.over unbuilt)).contains "M" = true ∧
    (∀ e ∈ secondRound.store.entries.entries, secondRound.tree.pathExists
      ((Path.absolute root).joinText e.2.sourcePath) = true) ∧
    ∀ e ∈ (secondRound.store.over (firstRound.store.over unbuilt)).entries.entries,
      secondRound.tree.pathExists ((Path.absolute root).joinText e.2.sourcePath) = true := by
  decide +kernel

theorem second_leads : Leads editedFiles (firstRound.store.over unbuilt) edited
    (.ok secondSummary) := second_round.1

theorem second_mirrored : (secondRound.store.over (firstRound.store.over unbuilt)).Mirrored
    (artifactsAt root) secondRound.tree := second_leads.mirrored edited_mirrored

end Sample

theorem fresh_store_agrees_after_first_load :
    let loaded := Sample.project.load {} (fun _ => Compiler.outline) {} Sample.start
    (∃ discarded handles, loaded.result = .ok { Sample.firstSummary with discarded, handles }) ∧
      ((storeIn loaded.project.root).load loaded.project.root loaded.tree).2.1.entries =
        loaded.project.store.entries := by
  obtain ⟨hroot, hstore, htree, -, hended⟩ := Sample.first_leads.load Sample.start_mirrored
  obtain ⟨discarded, handles, hresult⟩ := hended _ rfl
  have hall : ∀ u ∈ Sample.firstSummary.closure, u ∈ Sample.firstSummary.installed := by
    intro u hu
    have hnames : ∀ v ∈ Sample.firstSummary.closure.names, v ∈ Sample.firstSummary.installed := by
      decide
    exact hnames u hu
  have h := (fresh_store_agrees_iff Sample.start_wellFormed Sample.names_root rfl
    (fun _ => Compiler.outline_storable) hresult).2
  generalize Sample.project.load {} (fun _ => Compiler.outline) {} Sample.start = loaded
    at hroot hstore htree hresult h ⊢
  dsimp only at h ⊢
  refine ⟨⟨discarded, handles, hresult⟩, ?_⟩
  refine (h fun u hu hout => absurd (hall u hu) hout).2 ⟨fun u hu _ => hall u hu, ?_⟩
  intro u a ha
  rw [hstore] at ha
  rw [hroot, htree]
  exact Sample.first_sources (u, a) (NameMap.get?_eq_some_iff.1 ha)

/-- Nothing declares the unit any more. -/
theorem fresh_store_finds_evicted_artifact :
    let loaded := Sample.project.load {} (fun _ => Compiler.outline) {} Sample.edited
    Compiler.outline.Storable ∧ Sample.edited.WellFormed ∧
    (∃ discarded handles, loaded.result = .ok { Sample.secondSummary with discarded, handles }) ∧
    (∀ u a, loaded.project.store.get? u = some a →
      loaded.tree.pathExists (loaded.project.root.joinText a.sourcePath) = true) ∧
    loaded.project.store.contains "M" = false ∧
    ((storeIn loaded.project.root).load loaded.project.root loaded.tree).2.1.contains "M" = true := by
  obtain ⟨-, hforgotten, hthere, hsources, hfiles⟩ := Sample.second_round
  have hs := Sample.second_mirrored
  obtain ⟨hroot, hstore, htree, -, hended⟩ := Sample.second_leads.load Sample.edited_mirrored
  have hresult := hended _ rfl
  generalize Sample.project.load {} (fun _ => Compiler.outline) {} Sample.edited = loaded
    at hroot hstore htree hresult ⊢
  refine ⟨Compiler.outline_storable, Sample.edited_mirrored.wellFormed, hresult, ?_⟩
  rw [hroot, hstore, htree, storeIn_absolute Sample.names_root]
  refine ⟨fun u a ha => hsources (u, a) (NameMap.get?_eq_some_iff.1 ha), hforgotten, ?_⟩
  have hdisk : ∀ u a, onDisk? Sample.secondRound.tree (artifactsAt Sample.root) u = some a →
      Sample.secondRound.tree.pathExists ((Path.absolute Sample.root).joinText a.sourcePath) =
        true := by
    intro u a ha
    rw [hs.onDisk?_eq] at ha
    exact hfiles (u, a) (NameMap.get?_eq_some_iff.1 ha)
  have hfound := (get?_found_of_tidy hs.wellFormed Sample.names_artifacts hs.tidy hdisk "M").trans
    (hs.onDisk?_eq "M")
  exact (congrArg Option.isSome hfound).trans hthere

end Project

end ContractBuild
