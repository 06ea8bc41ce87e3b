import ContractBuild.Proofs.Opening
import ContractBuild.Proofs.Agreement

/-! Runs of a project: edits of its sources, and loads. Every artifact was compiled from the sources of
some load, and what it was compiled with must still be what is declared. This is so as long as memory
and disk agree after every load; an artifact that is taken out of memory only comes back with its
unit, and is then taken for fresh. -/

namespace ContractBuild

open FileTree ContractBuild.Path Store

structure Artifact.Matches (a b : Artifact) : Prop where
  fingerprint : a.fingerprint = b.fingerprint
  dependencies : a.dependencies = b.dependencies

theorem Artifact.Matches.refl (a : Artifact) : a.Matches a := ⟨rfl, rfl⟩

def Store.Within (s s' : Store) : Prop :=
  ∀ u a, s.get? u = some a → ∃ b, s'.get? u = some b ∧ a.Matches b

theorem Store.Within.reaches {s s' : Store} (h : s.Within s') {u v : String} (hr : s.Reaches u v) :
    s'.Reaches u v := by
  refine Relation.ReflTransGen.mono ?_ _ _ hr
  rintro u v ⟨a, ha, hv⟩
  obtain ⟨b, hb, hmatches⟩ := h u a ha
  exact ⟨b, hb, hmatches.dependencies ▸ hv⟩

/-- Whatever an artifact leads to has the fingerprint that it had in the sources from which the
artifact was compiled, if it was declared there. -/
def Store.Traced (s : Store) (minified : Bool) (origin : String → Option SourceSet) : Prop :=
  ∀ u v b, s.contains u = true → s.Reaches u v → s.get? v = some b →
    ∃ sources, origin u = some sources ∧
      (sources.containsUnit v = true → sources.fingerprint? v minified = some b.fingerprint)

theorem Store.Traced.within {s s' : Store} {minified : Bool} {origin : String → Option SourceSet}
    (h : s'.Traced minified origin) (hs : s.Within s') : s.Traced minified origin := by
  intro u v b hu hr hb
  obtain ⟨a, ha⟩ := NameMap.contains_iff.1 hu
  obtain ⟨a', ha', -⟩ := hs u a ha
  obtain ⟨b', hb', hmatches⟩ := hs v b hb
  obtain ⟨sources, horigin, htrace⟩ :=
    h u v b' (NameMap.contains_iff.2 ⟨a', ha'⟩) (hs.reaches hr) hb'
  exact ⟨sources, horigin, fun hv => hmatches.fingerprint ▸ htrace hv⟩

/-- The disk is not behind, and a unit that has not changed has not changed its dependencies. -/
structure Steady (read memory : Store) (summary : BuildSummary) : Prop where
  installed : ∀ u ∈ summary.closure, read.contains u = true → u ∈ summary.installed
  dependencies : ∀ u a b, read.get? u = some a → memory.get? u = some b →
    b.fingerprint = a.fingerprint → b.dependencies = a.dependencies

theorem Steady.of_entries {read memory : Store} {summary : BuildSummary}
    (h : ∀ e ∈ read.entries.entries,
      (summary.closure.contains e.1 = true → e.1 ∈ summary.installed) ∧
        (memory.get? e.1).all (·.dependencies == e.2.dependencies) = true) :
    Steady read memory summary := by
  constructor
  · intro u hu hread
    obtain ⟨a, ha⟩ := NameMap.contains_iff.1 hread
    exact (h (u, a) (NameMap.get?_eq_some_iff.1 ha)).1 (NameSet.contains_iff.2 hu)
  · intro u a b ha hb _
    have hsame := (h (u, a) (NameMap.get?_eq_some_iff.1 ha)).2
    rw [hb] at hsame
    exact beq_iff_eq.1 hsame

def originAfter (origin : String → Option SourceSet) (summary : BuildSummary) (sources : SourceSet)
    (u : String) : Option SourceSet :=
  if u ∈ summary.installed then some sources else origin u

section Round

variable {files : NameMap String} {store : Store} {compiler : Compiler} {settings : Settings}
  {t : FileTree} {summary : BuildSummary} {origin : String → Option SourceSet}

theorem fingerprint_after_round (hstore : store.KeyedByName) (hcomplete : compiler.Complete)
    (h : (rebuild (.ofFiles files) store compiler settings t).result = .ok summary) {u : String}
    (hu : (SourceSet.ofFiles files).containsUnit u = true) :
    ∃ b, (rebuild (.ofFiles files) store compiler settings t).store.get? u = some b ∧
      (SourceSet.ofFiles files).fingerprint? u settings.minifySource = some b.fingerprint := by
  rcases entry_after_rebuild hstore hcomplete h hu with
    ⟨_, _, a, f, -, -, -, hf, hget⟩ | ⟨⟨a, ha, hget⟩, hfresh, -⟩
  · exact ⟨_, hget, hf⟩
  · exact ⟨a, hget, ((check_eq_fresh_of_get? ha).1 hfresh).1⟩

theorem declared_of_installed (hexact : compiler.Exact)
    (h : (rebuild (.ofFiles files) store compiler settings t).result = .ok summary) {u : String}
    (hu : u ∈ summary.installed) : (SourceSet.ofFiles files).containsUnit u = true := by
  rcases get?_rebuild h u with ⟨hout, -⟩ | ⟨request, artifacts, a, hrequest, hanswer, ha, -, -⟩
  · exact absurd hu hout
  · rw [rebuild_request?] at hrequest
    exact (request_within hrequest).containsUnit
      ((hexact request artifacts hanswer u).1 (NameMap.contains_iff.2 ⟨a, ha⟩))

theorem read_of_not_mem_closure (hstore : store.KeyedByName) (hexact : compiler.Exact)
    (h : (rebuild (.ofFiles files) store compiler settings t).result = .ok summary)
    (hsteady : Steady store (rebuild (.ofFiles files) store compiler settings t).store summary)
    {u : String} (hu : u ∉ summary.closure) {b : Artifact}
    (hb : (rebuild (.ofFiles files) store compiler settings t).store.get? u = some b) :
    ∃ a, store.get? u = some a ∧ b.Matches a := by
  rcases get?_rebuild h u with ⟨-, hget⟩ | ⟨_, _, _, -, -, -, hin, -⟩
  · rw [if_neg hu] at hget
    exact ⟨b, hget.symm.trans hb, .refl b⟩
  · -- The unit came back although it was fresh: another unit of its file was asked for.
    have hdeclared := declared_of_installed hexact h hin
    have hfresh : check (.ofFiles files) store settings u = .fresh := by
      by_contra hne
      rw [(rebuild_ok h).2.1] at hu
      exact hu (subset_close hstore (mem_staleUnits.2 ⟨hdeclared, hne⟩))
    obtain ⟨a, ha, hfingerprint, -⟩ := check_eq_fresh_iff.1 hfresh
    obtain ⟨b', hb', hcurrent⟩ := fingerprint_after_round hstore hexact.complete h hdeclared
    cases hb'.symm.trans hb
    have hsame : b.fingerprint = a.fingerprint := Option.some.inj (hcurrent.symm.trans hfingerprint)
    exact ⟨a, ha, hsame, hsteady.dependencies u a b ha hb hsame⟩

theorem reaches_before_round (hstore : store.KeyedByName) (hexact : compiler.Exact)
    (h : (rebuild (.ofFiles files) store compiler settings t).result = .ok summary)
    (hsteady : Steady store (rebuild (.ofFiles files) store compiler settings t).store summary)
    {u v : String} (hu : u ∉ summary.closure)
    (hr : (rebuild (.ofFiles files) store compiler settings t).store.Reaches u v) :
    store.Reaches u v ∧ v ∉ summary.closure := by
  have hclosed : ∀ {w}, store.Reaches u w → w ∉ summary.closure := by
    intro w hw hin
    rw [(rebuild_ok h).2.1, mem_rebuildSet_iff hstore] at hu hin
    obtain ⟨x, hx, hwx⟩ := hin
    exact hu ⟨x, hx, hw.trans hwx⟩
  suffices hbefore : store.Reaches u v from ⟨hbefore, hclosed hbefore⟩
  induction hr with
  | refl => exact .refl
  | tail _ hrecords ih =>
    obtain ⟨b, hb, hx⟩ := hrecords
    obtain ⟨a, ha, hmatches⟩ := read_of_not_mem_closure hstore hexact h hsteady (hclosed ih) hb
    exact ih.tail ⟨a, ha, hmatches.dependencies ▸ hx⟩

theorem Store.Traced.round (hstore : store.KeyedByName) (hexact : compiler.Exact)
    (h : (rebuild (.ofFiles files) store compiler settings t).result = .ok summary)
    (hsteady : Steady store (rebuild (.ofFiles files) store compiler settings t).store summary)
    (htraced : store.Traced settings.minifySource origin) :
    (rebuild (.ofFiles files) store compiler settings t).store.Traced settings.minifySource
      (originAfter origin summary (.ofFiles files)) := by
  intro u v b hu hr hb
  by_cases hin : u ∈ summary.installed
  · -- The artifact is new: all that is declared has the fingerprint of its source.
    refine ⟨.ofFiles files, if_pos hin, fun hv => ?_⟩
    obtain ⟨b', hb', hcurrent⟩ := fingerprint_after_round hstore hexact.complete h hv
    cases hb'.symm.trans hb
    exact hcurrent
  · have hout : u ∉ summary.closure := by
      intro hclosure
      rcases get?_rebuild h u with ⟨-, hget⟩ | ⟨_, _, _, -, -, -, hin', -⟩
      · rw [if_pos hclosure] at hget
        obtain ⟨a, ha⟩ := NameMap.contains_iff.1 hu
        cases hget.symm.trans ha
      · exact hin hin'
    obtain ⟨hbefore, hv⟩ := reaches_before_round hstore hexact h hsteady hout hr
    obtain ⟨a, ha⟩ := NameMap.contains_iff.1 hu
    obtain ⟨a', ha', -⟩ := read_of_not_mem_closure hstore hexact h hsteady hout ha
    obtain ⟨b', hb', hmatches⟩ := read_of_not_mem_closure hstore hexact h hsteady hv hb
    obtain ⟨sources, horigin, htrace⟩ :=
      htraced u v b' (NameMap.contains_iff.2 ⟨a', ha'⟩) hbefore hb'
    refine ⟨sources, (if_neg hin).trans horigin, ?_⟩
    rw [hmatches.fingerprint]
    exact htrace

theorem rebuild_wellFormed {l : Location} (ht : t.WellFormed) (hl : ∀ n ∈ l, IsFileName n)
    (hs : store.directory = some (.absolute l))
    (h : (rebuild (.ofFiles files) store compiler settings t).result = .ok summary) :
    (rebuild (.ofFiles files) store compiler settings t).tree.WellFormed := by
  obtain ⟨-, -, hround⟩ := rebuild_ok h
  rcases hround with ⟨-, -, -, htree⟩ | ⟨request, artifacts, -, -, -, hinstall⟩
  · rw [htree]
    exact ht
  · have hkept : (keptStore (.ofFiles files) store settings).directory = some (.absolute l) := hs
    exact install_wellFormed ht hl hkept hinstall

theorem onDisk?_rebuild_cases {l : Location} (ht : t.WellFormed) (hl : ∀ n ∈ l, IsFileName n)
    (hs : store.directory = some (.absolute l))
    (h : (rebuild (.ofFiles files) store compiler settings t).result = .ok summary) {u : String}
    {b : Artifact}
    (hb : onDisk? (rebuild (.ofFiles files) store compiler settings t).tree l u = some b) :
    (u ∈ summary.installed ∧ ∃ a,
        (rebuild (.ofFiles files) store compiler settings t).store.get? u = some a ∧
        b = { a with abi := b.abi, metadata := b.metadata }) ∨
      (u ∉ summary.installed ∧ onDisk? t l u = some b) := by
  obtain ⟨-, -, hround⟩ := rebuild_ok h
  rcases hround with ⟨-, hinstalled, -, htree⟩ | ⟨request, artifacts, -, -, hinstalled, hinstall⟩
  · rw [htree] at hb
    rw [hinstalled]
    exact Or.inr ⟨List.not_mem_nil, hb⟩
  · have hkept : (keptStore (.ofFiles files) store settings).directory = some (.absolute l) := hs
    rw [hinstalled]
    rcases onDisk?_install ht hl hkept hinstall hb with ⟨a, ha, hread⟩ | ⟨hout, hbefore⟩
    · have hentry := NameMap.get?_eq_some_iff.2 ha
      have hget := get?_install hinstall u
      rw [hentry, Option.map_some, Option.some_or] at hget
      exact Or.inl ⟨NameMap.mem_names_iff.2 (NameMap.contains_iff.2 ⟨a, hentry⟩), _, hget,
        Artifact.eq_of_ofText_canonicalText hread⟩
    · exact Or.inr ⟨hout, hbefore⟩

theorem onDisk?_of_rebuild {l : Location} (ht : t.WellFormed) (hl : ∀ n ∈ l, IsFileName n)
    (hs : store.directory = some (.absolute l))
    (h : (rebuild (.ofFiles files) store compiler settings t).result = .ok summary) {u : String}
    {b : Artifact}
    (hb : onDisk? (rebuild (.ofFiles files) store compiler settings t).tree l u = some b) :
    (u ∈ summary.installed ∧ ∃ a,
        (rebuild (.ofFiles files) store compiler settings t).store.get? u = some a ∧ b.Matches a) ∨
      (u ∉ summary.installed ∧ onDisk? t l u = some b) := by
  rcases onDisk?_rebuild_cases ht hl hs h hb with ⟨hin, a, hget, hread⟩ | hout
  · rw [hread]
    exact Or.inl ⟨hin, a, hget, rfl, rfl⟩
  · exact Or.inr hout

end Round

namespace Project

/-- The trees that a run can leave, each with the sources from which its artifacts were compiled. -/
inductive History (root : Location) (compiler : FileTree → Compiler) (settings : Settings)
    (allowed : Store → Store → BuildSummary → Prop) :
    FileTree → (String → Option SourceSet) → Prop
  | start {t : FileTree} (wellFormed : t.WellFormed)
      (unbuilt : ∀ u, onDisk? t (artifactsAt root) u = none) :
      History root compiler settings allowed t fun _ => none
  | edit {t t' : FileTree} {origin : String → Option SourceSet}
      (before : History root compiler settings allowed t origin) (edited : Edited root t t') :
      History root compiler settings allowed t' origin
  | opening {t t' : FileTree} {origin : String → Option SourceSet}
      (before : History root compiler settings allowed t origin) {path : Path} {name : Option String}
      {p : Project} (opened : openAt path name t = (.ok p, t')) :
      History root compiler settings allowed t' origin
  | load {t : FileTree} {origin : String → Option SourceSet}
      (before : History root compiler settings allowed t origin) {p : Project} {registry : Registry}
      {summary : BuildSummary} (root_eq : p.root = .absolute root)
      (succeeded : (p.load registry compiler settings t).result = .ok summary)
      (isAllowed : allowed (readAt root t) (p.load registry compiler settings t).project.store
        summary) :
      History root compiler settings allowed (p.load registry compiler settings t).tree
        (originAfter origin summary (p.load registry compiler settings t).project.sources)

section Runs

variable {root : Location} {compiler : FileTree → Compiler} {settings : Settings} {t : FileTree}
  {origin : String → Option SourceSet} {p : Project} {registry : Registry} {summary : BuildSummary}

def TracedAt (root : Location) (minified : Bool) (t : FileTree) (origin : String → Option SourceSet) :
    Prop :=
  ∀ s : Store, (∀ u a, s.get? u = some a → onDisk? t (artifactsAt root) u = some a) →
    s.Traced minified origin

theorem TracedAt.readAt (h : TracedAt root settings.minifySource t origin) (ht : t.WellFormed)
    (hroot : ∀ n ∈ root, IsFileName n) : (readAt root t).Traced settings.minifySource origin := by
  have hl := isFileName_artifactsAt hroot
  refine h _ fun u a ha => ?_
  exact (load_trimmed _ ht hl).onDisk?_of_some ((get?_found ht hl u).symm.trans ha)

theorem within_of_onDisk? (ht : t.WellFormed) (hroot : ∀ n ∈ root, IsFileName n)
    {files : NameMap String} {inner : BuildSummary}
    (h : (roundAt root (.ofFiles files) compiler settings t).result = .ok inner)
    (hsteady : Steady (readAt root t) (roundAt root (.ofFiles files) compiler settings t).store inner)
    {s : Store} (hs : ∀ u a, s.get? u = some a →
      onDisk? (roundAt root (.ofFiles files) compiler settings t).tree (artifactsAt root) u = some a) :
    s.Within (roundAt root (.ofFiles files) compiler settings t).store := by
  intro u b hb
  have hl := isFileName_artifactsAt hroot
  rcases onDisk?_of_rebuild (healedAt_wellFormed ht hroot) hl rfl h (hs u b hb) with
    ⟨-, hnew⟩ | ⟨hout, hold⟩
  · exact hnew
  · have hread : (readAt root t).get? u = some b := (get?_found ht hl u).trans hold
    have hclosure : u ∉ inner.closure := fun hin =>
      hout (hsteady.installed u hin (NameMap.contains_iff.2 ⟨b, hread⟩))
    rcases get?_rebuild h u with ⟨-, hget⟩ | ⟨_, _, _, -, -, -, hin, -⟩
    · rw [if_neg hclosure, hread] at hget
      exact ⟨b, hget, .refl b⟩
    · exact absurd hin hout

theorem load_traced (ht : t.WellFormed) (hroot : ∀ n ∈ root, IsFileName n)
    (hcompiler : ∀ t, (compiler t).Exact) (htraced : TracedAt root settings.minifySource t origin)
    (hp : p.root = .absolute root)
    (h : (p.load registry compiler settings t).result = .ok summary)
    (hsteady : Steady (readAt root t) (p.load registry compiler settings t).project.store summary) :
    let loaded := p.load registry compiler settings t
    let origin' := originAfter origin summary loaded.project.sources
    loaded.tree.WellFormed ∧ TracedAt root settings.minifySource loaded.tree origin' ∧
      loaded.project.store.Traced settings.minifySource origin' ∧
      ∀ u, loaded.project.sources.containsUnit u = true →
        ∃ b, loaded.project.store.get? u = some b ∧
          loaded.project.sources.fingerprint? u settings.minifySource = some b.fingerprint := by
  have hl := isFileName_artifactsAt hroot
  have hhealed := healedAt_wellFormed ht hroot
  have hkeys : (readAt root t).KeyedByName := keyedByName_found ht hl
  obtain ⟨files, inner, hran, hresult, -, hclosure, hinstalled⟩ := load_ok hroot hp h
  generalize p.load registry compiler settings t = loaded at hran hsteady ⊢
  obtain ⟨-, -, hsources, hstore, htree, -⟩ := hran
  have hinner : Steady (readAt root t)
      (roundAt root (.ofFiles files) compiler settings t).store inner := by
    rw [← hstore]
    exact ⟨hclosure ▸ hinstalled ▸ hsteady.installed, hsteady.dependencies⟩
  have horigin : originAfter origin summary (.ofFiles files) =
      originAfter origin inner (.ofFiles files) := by
    funext u
    rw [originAfter, originAfter, hinstalled]
  have hmemory := (htraced.readAt ht hroot).round hkeys (hcompiler _) hresult hinner
  dsimp only
  rw [hsources, hstore, htree, horigin]
  refine ⟨rebuild_wellFormed hhealed hl rfl hresult, fun s hs => ?_, hmemory, fun u hu => ?_⟩
  · exact hmemory.within (within_of_onDisk? ht hroot hresult hinner hs)
  · exact fingerprint_after_round hkeys (hcompiler _).complete hresult hu

theorem History.traced (hroot : ∀ n ∈ root, IsFileName n) (hcompiler : ∀ t, (compiler t).Exact)
    (h : History root compiler settings Steady t origin) :
    t.WellFormed ∧ TracedAt root settings.minifySource t origin := by
  have hl := isFileName_artifactsAt hroot
  induction h with
  | start ht hempty =>
    refine ⟨ht, fun s hs u v b hu _ _ => ?_⟩
    obtain ⟨a, ha⟩ := NameMap.contains_iff.1 hu
    cases (hempty u).symm.trans (hs u a ha)
  | edit _ hedited ih =>
    refine ⟨hedited.wellFormed, fun s hs => ih.2 s fun u a ha => ?_⟩
    rw [← hedited.onDisk?_eq]
    exact hs u a ha
  | opening _ hopen ih =>
    obtain ⟨root', node, made, -, hopened⟩ := openAt_ok ih.1 hopen
    exact ⟨hopened.wellFormed, fun s hs => ih.2 s fun u a ha => hopened.onDisk?_of_some (hs u a ha)⟩
  | load _ hp hok hsteady ih =>
    obtain ⟨ht, htraced, -⟩ := load_traced ih.1 hroot hcompiler ih.2 hp hok hsteady
    exact ⟨ht, htraced⟩

end Runs

/-- What an artifact leads to is as it was when the artifact was compiled. -/
theorem no_stale_reuse {root : Location} {compiler : FileTree → Compiler} {settings : Settings}
    {t : FileTree} {origin : String → Option SourceSet} {p : Project} {registry : Registry}
    {summary : BuildSummary} (hroot : ∀ n ∈ root, IsFileName n)
    (hcompiler : ∀ t, (compiler t).Exact) (hrun : History root compiler settings Steady t origin)
    (hp : p.root = .absolute root)
    (h : (p.load registry compiler settings t).result = .ok summary)
    (hsteady : Steady (readAt root t) (p.load registry compiler settings t).project.store summary) :
    let loaded := p.load registry compiler settings t
    let sources := loaded.project.sources
    ∀ u d, sources.containsUnit u = true → sources.containsUnit d = true →
      loaded.project.store.Reaches u d →
      ∃ compiled, originAfter origin summary sources u = some compiled ∧
        (compiled.containsUnit d = true → compiled.fingerprint? d settings.minifySource =
          sources.fingerprint? d settings.minifySource) := by
  obtain ⟨ht, htraced⟩ := hrun.traced hroot hcompiler
  obtain ⟨-, -, hmemory, hcurrent⟩ := load_traced ht hroot hcompiler htraced hp h hsteady
  intro loaded sources u d hu hd hreach
  obtain ⟨a, ha, -⟩ := hcurrent u hu
  obtain ⟨b, hb, hfingerprint⟩ := hcurrent d hd
  obtain ⟨compiled, horigin, htrace⟩ := hmemory u d b (NameMap.contains_iff.2 ⟨a, ha⟩) hreach hb
  exact ⟨compiled, horigin, fun hdeclared => (htrace hdeclared).trans hfingerprint.symm⟩

namespace Sample

def changed : FileTree := write firstRound.tree "D.sol" "contract D \x7b uint b; \x7d"

def changedFiles : List (String × String) :=
  [("contracts/D.sol", "contract D \x7b uint b; \x7d"), ("contracts/M.sol", "contract M is D \x7b\x7d")]

def changedSummary : BuildSummary :=
  { stale := .ofList ["D"], closure := .ofList ["D", "M"]
    compiledPaths := ["contracts/D.sol", "contracts/M.sol"], installed := ["D", "M"] }

def restored : FileTree := write secondRound.tree "M.sol" "contract M is D \x7b\x7d"

theorem changed_after_first : Edited root firstRound.tree changed :=
  write_edited first_mirrored.wellFormed (by decide) _

theorem changed_mirrored : (firstRound.store.over unbuilt).Mirrored (artifactsAt root) changed :=
  changed_after_first.mirrored first_mirrored

theorem changed_round :
    Leads changedFiles (firstRound.store.over unbuilt) changed (.ok changedSummary) ∧
    (∀ e ∈ (firstRound.store.over unbuilt).entries.entries,
      (changedSummary.closure.contains e.1 = true → e.1 ∈ changedSummary.installed) ∧
        ((round changedFiles (firstRound.store.over unbuilt) changed).store.get? e.1).all
          (·.dependencies == e.2.dependencies) = true) ∧
    ∃ a ∈ (round changedFiles (firstRound.store.over unbuilt) changed).store.get? "M",
      "D" ∈ a.dependencies := by decide +kernel

theorem changed_leads : Leads changedFiles (firstRound.store.over unbuilt) changed
    (.ok changedSummary) := changed_round.1

theorem restored_after_second : Edited root secondRound.tree restored :=
  write_edited second_mirrored.wellFormed (by decide) _

theorem restored_mirrored : (secondRound.store.over (firstRound.store.over unbuilt)).Mirrored
    (artifactsAt root) restored := restored_after_second.mirrored second_mirrored

theorem restored_round :
    Leads changedFiles (secondRound.store.over (firstRound.store.over unbuilt)) restored (.ok {}) ∧
    ∃ a ∈ (round changedFiles (secondRound.store.over (firstRound.store.over unbuilt))
      restored).store.get? "M", "D" ∈ a.dependencies := by decide +kernel

theorem restored_leads : Leads changedFiles (secondRound.store.over (firstRound.store.over unbuilt))
    restored (.ok {}) := restored_round.1

theorem history_start (allowed : Store → Store → BuildSummary → Prop) :
    History root (fun _ => Compiler.outline) {} allowed start fun _ => none :=
  .start start_wellFormed start_mirrored.onDisk?_eq

theorem history_next {allowed : Store → Store → BuildSummary → Prop} {t t' : FileTree}
    {origin : String → Option SourceSet} {files : List (String × String)} {s : Store}
    {summary : BuildSummary} (h : History root (fun _ => Compiler.outline) {} allowed t origin)
    (hleads : Leads files s t (.ok summary)) (hs : s.Mirrored (artifactsAt root) t)
    (hallowed : ∀ discarded handles,
      allowed s (round files s t).store { summary with discarded, handles })
    (hedited : Edited root (round files s t).tree t') :
    History root (fun _ => Compiler.outline) {} allowed t'
      (originAfter origin summary (.ofFiles (.ofList files))) := by
  obtain ⟨-, hstore, htree, -, hended⟩ := hleads.load hs
  obtain ⟨discarded, handles, hresult⟩ := hended _ rfl
  have hloaded := h.load rfl hresult (by
    rw [hleads.readAt hs, hstore]
    exact hallowed discarded handles)
  rw [htree, hleads.sources hs] at hloaded
  exact hloaded.edit hedited

theorem first_steady (discarded : List Path) (handles : Nat) :
    Steady unbuilt firstRound.store { firstSummary with discarded, handles } :=
  Steady.of_entries fun _ he => nomatch he

theorem changed_steady (discarded : List Path) (handles : Nat) :
    Steady (firstRound.store.over unbuilt)
      (round changedFiles (firstRound.store.over unbuilt) changed).store
      { changedSummary with discarded, handles } := Steady.of_entries changed_round.2.1

theorem changed_records :
    (round changedFiles (firstRound.store.over unbuilt) changed).store.Records "M" "D" :=
  changed_round.2.2

theorem restored_records :
    (round changedFiles (secondRound.store.over (firstRound.store.over unbuilt)) restored).store.Records
      "M" "D" := restored_round.2

theorem changed_sources :
    (SourceSet.ofFiles (.ofList changedFiles)).containsUnit "M" = true ∧
    (SourceSet.ofFiles (.ofList changedFiles)).containsUnit "D" = true ∧
    (SourceSet.ofFiles (.ofList startFiles)).containsUnit "D" = true ∧
    (SourceSet.ofFiles (.ofList startFiles)).fingerprint? "D" false ≠
      (SourceSet.ofFiles (.ofList changedFiles)).fingerprint? "D" false := by
  decide

end Sample

theorem no_stale_reuse_after_change :
    let loaded := Sample.project.load {} (fun _ => Compiler.outline) {} Sample.changed
    ∃ origin summary, loaded.result = .ok summary ∧
      History Sample.root (fun _ => Compiler.outline) {} Steady Sample.changed origin ∧
      loaded.project.store.Reaches "M" "D" ∧
      ∃ compiled, originAfter origin summary loaded.project.sources "M" = some compiled ∧
        (compiled.containsUnit "D" = true → compiled.fingerprint? "D" false =
          loaded.project.sources.fingerprint? "D" false) := by
  have hrun := Sample.history_next (Sample.history_start Steady) Sample.first_leads
    Sample.start_mirrored Sample.first_steady Sample.changed_after_first
  obtain ⟨-, hstore, -, -, hended⟩ := Sample.changed_leads.load Sample.changed_mirrored
  obtain ⟨discarded, handles, hresult⟩ := hended _ rfl
  have hsources := Sample.changed_leads.sources Sample.changed_mirrored
  have hsteady : Steady (readAt Sample.root Sample.changed)
      (Sample.project.load {} (fun _ => Compiler.outline) {} Sample.changed).project.store
      { Sample.changedSummary with discarded, handles } := by
    rw [Sample.changed_leads.readAt Sample.changed_mirrored, hstore]
    exact Sample.changed_steady discarded handles
  have h := no_stale_reuse Sample.names_root (fun _ => Compiler.outline_exact) hrun rfl hresult
    hsteady "M" "D"
  obtain ⟨hM, hD, -⟩ := Sample.changed_sources
  generalize Sample.project.load {} (fun _ => Compiler.outline) {} Sample.changed = loaded
    at hstore hresult hsources h ⊢
  dsimp only at h ⊢
  rw [hsources, hstore] at h ⊢
  have hreach := Relation.ReflTransGen.single Sample.changed_records
  exact ⟨_, _, hresult, hrun, hreach, h hM hD hreach⟩

/-- The artifact was evicted, stayed on disk, and is read again once the unit is declared again. -/
theorem restored_unit_is_reused :
    let loaded := Sample.project.load {} (fun _ => Compiler.outline) {} Sample.restored
    Compiler.outline.Faithful ∧
    ∃ origin summary compiled,
      History Sample.root (fun _ => Compiler.outline) {} (fun _ _ _ => True) Sample.restored origin ∧
      loaded.result = .ok summary ∧ summary.installed = [] ∧
      loaded.project.sources.containsUnit "M" = true ∧
      loaded.project.sources.containsUnit "D" = true ∧ loaded.project.store.Reaches "M" "D" ∧
      originAfter origin summary loaded.project.sources "M" = some compiled ∧
      compiled.containsUnit "D" = true ∧
      compiled.fingerprint? "D" false ≠ loaded.project.sources.fingerprint? "D" false := by
  have hfirst := Sample.history_next (Sample.history_start fun _ _ _ => True) Sample.first_leads
    Sample.start_mirrored (fun _ _ => trivial) Sample.edited_after_first
  have hsecond := Sample.history_next hfirst Sample.second_leads Sample.edited_mirrored
    (fun _ _ => trivial) Sample.restored_after_second
  obtain ⟨-, hstore, -, -, hended⟩ := Sample.restored_leads.load Sample.restored_mirrored
  obtain ⟨discarded, handles, hresult⟩ := hended _ rfl
  have hsources := Sample.restored_leads.sources Sample.restored_mirrored
  obtain ⟨hM, hD, hbefore, hchanged⟩ := Sample.changed_sources
  generalize Sample.project.load {} (fun _ => Compiler.outline) {} Sample.restored = loaded
    at hstore hresult hsources ⊢
  dsimp only
  rw [hsources, hstore]
  refine ⟨Compiler.outline_faithful, _, _, .ofFiles (.ofList Sample.startFiles), hsecond, hresult, rfl,
    hM, hD, .single Sample.restored_records, ?_, hbefore, hchanged⟩
  have hinstalled : "M" ∈ Sample.firstSummary.installed ∧ "M" ∉ Sample.secondSummary.installed := by
    decide
  rw [originAfter, if_neg List.not_mem_nil, originAfter, if_neg hinstalled.2, originAfter,
    if_pos hinstalled.1]

end Project

end ContractBuild
