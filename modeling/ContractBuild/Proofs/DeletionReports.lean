import ContractBuild.Proofs.Orphans
import ContractBuild.Proofs.StatusReports

/-! What the commands report of the files that they delete. A command that opens a project reads the
artifacts twice, and each of the readings deletes what is invalid. The first one is part of the opening,
and what it deletes is in no report. -/

namespace ContractBuild

open FileTree ContractBuild.Path Store Project

def FileTree.Loses (t t' : FileTree) (l : Location) : Prop :=
  (∃ content, t.node? l = some (.file content)) ∧ t'.node? l = none

namespace FileTree.Loses

variable {t t' : FileTree} {l : Location}

theorem there (h : t.Loses t' l) : ∃ node, t.node? l = some node := by
  obtain ⟨content, hfile⟩ := h.1
  exact ⟨_, hfile⟩

theorem isPlace (ht : t.WellFormed) (h : t.Loses t' l) : (∀ n ∈ l, IsFileName n) ∧ l ≠ [] := by
  refine ⟨ht.names h.there.choose_spec, ?_⟩
  rintro rfl
  exact absurd h.2 nofun

theorem not_loses {t'' : FileTree} (h : t.Loses t' l) : ¬ t'.Loses t'' l := by
  rintro ⟨⟨content, hfile⟩, -⟩
  rw [h.2] at hfile
  cases hfile

end FileTree.Loses

theorem FileTree.not_loses_self {t : FileTree} {l : Location} : ¬ t.Loses t l := fun h => h.not_loses h

namespace Store

section Readings

variable {t t' : FileTree} {l k : Location} {names : List String}

theorem Trimmed.exists_of_loses (h : Trimmed l names t t') (hk : t.Loses t' k) :
    ∃ name ∈ names, k = l ++ [name] := by
  obtain ⟨⟨content, hfile⟩, hgone⟩ := hk
  rcases h.node? k with hsame | ⟨-, -, hname⟩
  · rw [hsame, hfile] at hgone
    cases hgone
  · exact hname

def discarded (root : Path) (l : Location) (t : FileTree) : List Path :=
  ((persistent (.absolute l)).load root t).1.discarded

theorem mem_discarded_of_loses (root : Path) (ht : t.WellFormed) (hl : ∀ n ∈ l, IsFileName n)
    (hk : t.Loses (healed root l t) k) : Path.absolute k ∈ discarded root l t := by
  obtain ⟨kept, dropped, h⟩ := exists_healed root ht hl
  obtain ⟨name, hname, rfl⟩ := h.trimmed.exists_of_loses hk
  have hfile := isFileName_of_mem_files ht name (h.underway.dropped_sublist.subset hname)
  rw [← absolute_joinText hl hfile.noSlash]
  exact (h.underway.mem_discarded_iff (isFileName_of_mem_files ht) hfile).2 hname

theorem exists_of_mem_discarded {root p : Path} (ht : t.WellFormed) (hl : ∀ n ∈ l, IsFileName n)
    (hp : p ∈ discarded root l t) :
    ∃ name node, IsFileName name ∧ p = .absolute (l ++ [name]) ∧
      t.node? (l ++ [name]) = some node := by
  obtain ⟨kept, dropped, h⟩ := exists_healed root ht hl
  have hreport : discarded root l t = dropped.map (Path.absolute l).joinText := h.underway.discarded
  rw [hreport] at hp
  obtain ⟨name, hname, rfl⟩ := List.mem_map.1 hp
  have hmem := h.underway.dropped_sublist.subset hname
  have hfile := isFileName_of_mem_files ht name hmem
  obtain ⟨-, -, node, hnode⟩ := (mem_artifactFiles ht hl).1 (mem_files.1 hmem)
  exact ⟨name, node, hfile, absolute_joinText hl hfile.noSlash, hnode⟩

theorem healed_eq_of_loses_none {root : Path} (ht : t.WellFormed) (hl : ∀ n ∈ l, IsFileName n)
    (hnone : ∀ k, ¬ t.Loses (healed root l t) k) : healed root l t = t := by
  obtain ⟨kept, dropped, h⟩ := exists_healed root ht hl
  have htree : healed root l t = t.without (dropped.map (Path.absolute l).joinText) := h.underway.tree
  rw [htree] at hnone ⊢
  refine without_eq_self fun p hp => Option.eq_none_iff_forall_ne_some.2 fun k hat => hnone k ?_
  obtain ⟨content, hfind⟩ := fileAt?_eq_some_iff.1 hat
  refine ⟨⟨content, (find_eq_ok_iff.1 hfind).2⟩, ?_⟩
  rw [node?_without, if_pos ⟨p, hp, hat⟩]

end Readings

section Rounds

variable {s s' : Store} {d : Path} {t t' : FileTree} {result : Except StoreError Unit} {k : Location}
  {node : Node}

theorem add_keeps_nodes {a : Artifact} (ht : t.WellFormed) (hd : d.Plain) (hs : s.directory = some d)
    (h : s.add a t = (result, s', t')) (hk : t.node? k = some node) : ∃ n, t'.node? k = some n := by
  cases result with
  | error e => exact ⟨node, (add_extends ht hd hs h).kept k node hk⟩
  | ok =>
    obtain ⟨before, place, r⟩ := add_replaced ht hd hs h
    exact r.kept hk

theorem install_keeps_nodes {sources : SourceSet} {minified : Bool}
    {entries : List (String × Artifact)} (ht : t.WellFormed) (hd : d.Plain)
    (hs : s.directory = some d) (h : s.install sources minified t entries = (result, s', t'))
    (hk : t.node? k = some node) : ∃ n, t'.node? k = some n := by
  induction entries generalizing s t node with
  | nil =>
    cases h
    exact ⟨node, hk⟩
  | cons e rest ih =>
    obtain ⟨unit, a⟩ := e
    rw [install] at h
    split at h
    · rename_i hadd
      cases h
      exact add_keeps_nodes ht hd hs hadd hk
    · rename_i hadd
      obtain ⟨ht₁, -, hs₁, -⟩ := add_leaves ht hd hs hadd
      obtain ⟨n, hn⟩ := add_keeps_nodes ht hd hs hadd hk
      exact ih ht₁ hs₁ h hn

end Rounds
end Store

theorem rebuild_keeps_nodes {sources : SourceSet} {store : Store} {compiler : Compiler}
    {settings : Settings} {t : FileTree} {d : Path} {k : Location} {node : Node} (ht : t.WellFormed)
    (hd : d.Plain) (hs : store.directory = some d) (hk : t.node? k = some node) :
    ∃ n, (rebuild sources store compiler settings t).tree.node? k = some n := by
  rcases rebuild_cases sources store compiler settings t with hsame | ⟨_, _, _, -, hinstall⟩
  · rw [hsame]
    exact ⟨node, hk⟩
  · have hkept : (keptStore sources store settings).directory = some d := hs
    exact install_keeps_nodes ht hd hkept hinstall hk

namespace Project

section Loading

variable {root : Location} {t t' made : FileTree} {p : Project} {k : Location}

theorem unit_of_loses_healedAt (ht : t.WellFormed) (hroot : ∀ n ∈ root, IsFileName n)
    (hk : t.Loses (healedAt root t) k) : ∃ u, u ≠ "" ∧ k = artifactsAt root ++ [fileName u] := by
  obtain ⟨name, hname, rfl⟩ :=
    (load_trimmed _ ht (isFileName_artifactsAt hroot)).exists_of_loses hk
  have hext := (isFileName_of_mem ht (mem_files.1 hname)).2.1
  exact ⟨stemOf name, (eq_of_extensionOf? hext).2, by rw [fileName_stemOf hext]⟩

theorem Opened.unit_of_loses (h : Opened root t made p t') (hk : t.Loses t' k) :
    ∃ u, u ≠ "" ∧ k = artifactsAt root ++ [fileName u] :=
  unit_of_loses_healedAt h.extends_made.wellFormed h.names
    ⟨hk.1.imp fun _ => h.extends_made.kept k _, h.tree ▸ hk.2⟩

theorem Opened.healedAt_eq (h : Opened root t made p t') (hnone : ∀ l, ¬ t.Loses t' l) :
    healedAt root t' = t' := by
  have hsame : healedAt root made = made := by
    refine healed_eq_of_loses_none h.extends_made.wellFormed (isFileName_artifactsAt h.names) ?_
    intro l hl
    exact hnone l ⟨hl.1.imp fun _ => h.extends_made.added l _, h.tree ▸ hl.2⟩
  rw [h.tree, hsame, hsame]

theorem discarded_of_load {registry : Registry} {compiler : FileTree → Compiler}
    {settings : Settings} {summary : BuildSummary} (hroot : ∀ n ∈ root, IsFileName n)
    (hp : p.root = .absolute root) (h : (p.load registry compiler settings t).result = .ok summary) :
    summary.discarded = Store.discarded (.absolute root) (artifactsAt root) t := by
  obtain ⟨p', hbuild, -⟩ := load_built h fun _ => nofun
  rw [build, hp, storeIn_absolute hroot] at hbuild
  rw [Store.discarded]
  split at hbuild
  · cases hbuild
  · generalize (persistent (.absolute (artifactsAt root))).load (.absolute root) t = read at hbuild ⊢
    obtain ⟨report, store, left⟩ := read
    dsimp only at hbuild
    split at hbuild
    · cases hbuild
    · cases (Prod.mk.inj hbuild).1
      rfl

theorem load_keeps_nodes {registry : Registry} {compiler : FileTree → Compiler}
    {settings : Settings} {summary : BuildSummary} {node : Node} (ht : t.WellFormed)
    (hroot : ∀ n ∈ root, IsFileName n) (hp : p.root = .absolute root)
    (h : (p.load registry compiler settings t).result = .ok summary)
    (hk : (healedAt root t).node? k = some node) :
    ∃ n, (p.load registry compiler settings t).tree.node? k = some n := by
  obtain ⟨files, inner, hran, -⟩ := load_ok hroot hp h
  rw [hran.tree, roundAt]
  exact rebuild_keeps_nodes (healedAt_wellFormed ht hroot)
    (plain_absolute (isFileName_artifactsAt hroot)) rfl hk

end Loading

namespace Cleared

variable {root : Location} {p p' : Project} {t t' : FileTree} {removed : NameSet} {u : String}
  {k : Location}

theorem there (h : Cleared root p t removed p' t') (hhealed : (healedAt root t).WellFormed)
    (hroot : ∀ n ∈ root, IsFileName n) (hu : u ∈ removed) :
    ∃ node, (healedAt root t).node? (artifactsAt root ++ [fileName u]) = some node :=
  ((Store.mem_artifactFiles hhealed (isFileName_artifactsAt hroot)).1 ((h.mem_removed u).1 hu).2).2.2

theorem ne_empty (h : Cleared root p t removed p' t') (hhealed : (healedAt root t).WellFormed)
    (hu : u ∈ removed) : u ≠ "" := by
  have hext := (isFileName_of_mem hhealed ((h.mem_removed u).1 hu).2).2.1
  rw [(fileName_eq_iff hext).1 rfl]
  exact (eq_of_extensionOf? hext).2

theorem exists_of_loses (h : Cleared root p t removed p' t') (hk : (healedAt root t).Loses t' k) :
    ∃ u ∈ removed, k = artifactsAt root ++ [fileName u] := by
  by_contra hno
  push Not at hno
  obtain ⟨node, hnode⟩ := hk.there
  rw [← h.node?_eq k hno, hk.2] at hnode
  cases hnode

end Cleared
end Project

namespace CommandLine

/-- Before the opening, after it, after the second reading of the artifacts, and at the end. -/
structure Stages where
  found : FileTree
  opened : FileTree
  reread : FileTree
  left : FileTree

def stages (project : Option String) (t : FileTree) (r : Run) : Stages :=
  match rootAndConfig project t with
  | .error _ => ⟨t, t, t, r.tree⟩
  | .ok (path, config) =>
    match openAt path config.name t with
    | (.error _, opened) => ⟨t, opened, opened, r.tree⟩
    | (.ok p, opened) => ⟨t, opened, ((storeIn p.root).load p.root opened).2.2, r.tree⟩

/-- The file is deleted on the way, whether or not it is there again in the end. -/
def Stages.Deletes (s : Stages) (l : Location) : Prop :=
  s.found.Loses s.opened l ∨ s.opened.Loses s.reread l ∨ s.reread.Loses s.left l

def Discards (r : Run) (l : Location) : Prop :=
  line ("Discarded " ++ (Path.absolute l).text) ∈ r.lines

/-- A line says that the unit for which the file is named has been removed. -/
def Removes (r : Run) (l : Location) : Prop :=
  ∃ name, l.getLast? = some name ∧ line ("Removed " ++ stemOf name) ∈ r.lines

section Lines

theorem discards_summaryLines {project : String} {verbose : Bool} {s : BuildSummary}
    {tree : FileTree} {l : Location} :
    Discards { lines := line ("Building " ++ project) :: summaryLines verbose s, tree } l ↔
      ∃ path ∈ s.discarded, path.text = (Path.absolute l).text := by
  have hcompiled : ∀ u, line ("Compiled " ++ u) ≠ line ("Discarded " ++ (Path.absolute l).text) :=
    fun u => line_append_ne (by decide) (by decide) (by decide) u _
  rw [Discards, line_mem_summaryLines (by decide) (by decide)]
  simp only [hcompiled, line_append_inj, and_false, exists_false, or_false]

theorem mem_removalLines {removed : NameSet} {u : String} :
    line ("Removed " ++ u) ∈ removalLines removed ↔ u ∈ removed := by
  have hcleaned : line ("Removed " ++ u) ≠
      line ("Cleaned " ++ toString removed.size ++ " artifact(s)") := by
    rw [String.append_assoc]
    exact line_append_ne (by decide) (by decide) (by decide) _ _
  simp only [removalLines, List.mem_append, List.mem_map, List.mem_singleton, hcleaned,
    line_append_inj, or_false, exists_eq_right]
  rfl

theorem removes_removalLines {removed : NameSet} {tree : FileTree} {d : Location} {u : String}
    (hu : u ≠ "") : Removes { lines := removalLines removed, tree } (d ++ [fileName u]) ↔
      u ∈ removed := by
  rw [Removes, List.getLast?_concat]
  simp only [Option.some.injEq, exists_eq_left', stemOf_fileName hu, mem_removalLines]

end Lines

section Commands

variable {project : Option String} {verbose : Bool} {compiler : String} {overrides : Overrides}
  {programs : Programs} {t t' t'' : FileTree} {path : Path} {config : Config} {p p' : Project}

theorem found_stages (project : Option String) (t : FileTree) (r : Run) :
    (stages project t r).found = t := by
  rw [stages]
  split
  · rfl
  · split <;> rfl

theorem opened_stages (project : Option String) (t : FileTree) (r r' : Run) :
    (stages project t r).opened = (stages project t r').opened := by
  rw [stages, stages]
  split
  · rfl
  · split <;> rfl

theorem stages_eq {root : Location} (hroot : rootAndConfig project t = .ok (path, config))
    (hopen : openAt path config.name t = (.ok p, t')) (hnames : ∀ n ∈ root, IsFileName n)
    (hp : p.root = .absolute root) (r : Run) :
    stages project t r = ⟨t, t', healedAt root t', r.tree⟩ := by
  rw [stages, hroot]
  dsimp only
  rw [hopen]
  dsimp only
  rw [hp, load_tree_eq hnames]

theorem cleanOrphans_of_removed (hroot : rootAndConfig project t = .ok (path, config))
    (hopen : openAt path config.name t = (.ok p, t')) {removed : NameSet}
    (hremoved : p.removeOrphans t' = (.ok removed, p', t'')) :
    cleanOrphans project t = { lines := removalLines removed, tree := t'' } := by
  rw [cleanOrphans, hroot]
  dsimp only
  rw [hopen]
  dsimp only
  rw [hremoved]

theorem cleanOrphans_ok (hroot : rootAndConfig project t = .ok (path, config))
    (h : (cleanOrphans project t).failure? = none) :
    ∃ p t' removed p' t'', openAt path config.name t = (.ok p, t') ∧
      p.removeOrphans t' = (.ok removed, p', t'') := by
  rw [cleanOrphans, hroot] at h
  dsimp only at h
  rcases hopen : openAt path config.name t with ⟨_ | p, t'⟩
  · rw [hopen] at h
    cases h
  · rw [hopen] at h
    dsimp only at h
    rcases hremoved : p.removeOrphans t' with ⟨_ | removed, p', t''⟩
    · rw [hremoved] at h
      cases h
    · exact ⟨p, t', removed, p', t'', rfl, hremoved⟩

theorem rootAndConfig_of_build
    (h : (build project verbose compiler overrides programs t).failure? = none) :
    ∃ path config, rootAndConfig project t = .ok (path, config) := by
  cases hroot : rootAndConfig project t with
  | error f =>
    rw [build, hroot] at h
    cases h
  | ok found => exact ⟨found.1, found.2, rfl⟩

theorem rootAndConfig_of_cleanOrphans (h : (cleanOrphans project t).failure? = none) :
    ∃ path config, rootAndConfig project t = .ok (path, config) := by
  cases hroot : rootAndConfig project t with
  | error f =>
    rw [cleanOrphans, hroot] at h
    cases h
  | ok found => exact ⟨found.1, found.2, rfl⟩

theorem build_reports (ht : t.WellFormed) (hroot : rootAndConfig project t = .ok (path, config))
    (h : (build project verbose compiler overrides programs t).failure? = none) :
    let r := build project verbose compiler overrides programs t
    let s := stages project t r
    (∃ root, ∀ l, s.Deletes l → ∃ u, u ≠ "" ∧ l = artifactsAt root ++ [fileName u]) ∧
    (∀ l, s.Deletes l → (Discards r l ↔ s.opened.Loses s.reread l)) ∧
    ((∀ l, ¬ s.found.Loses s.opened l) → ∀ l, ¬ s.Deletes l) := by
  obtain ⟨command, p, t', summary, hcommand, hopen, hload⟩ := build_ok hroot h
  obtain ⟨root, node, made, hfind, hopened⟩ := openAt_ok ht hopen
  have hl := isFileName_artifactsAt hopened.names
  have ht' := hopened.wellFormed
  rw [build_of_load hroot hcommand hopen hload]
  dsimp only
  rw [stages_eq hroot hopen hopened.names hopened.root_eq]
  obtain ⟨left, hleft⟩ : ∃ left, (p.load {} (command.compiler programs)
      (overrides.apply config.settings) t').tree = left := ⟨_, rfl⟩
  have hkeeps : ∀ l, ¬ (healedAt root t').Loses left l := by
    intro l hlost
    obtain ⟨node, hnode⟩ := hlost.there
    obtain ⟨n, hn⟩ := load_keeps_nodes ht' hopened.names hopened.root_eq hload hnode
    rw [hleft, hlost.2] at hn
    cases hn
  have hreport := discarded_of_load hopened.names hopened.root_eq hload
  simp only [Stages.Deletes, hleft, hkeeps, or_false, discards_summaryLines, hreport]
  refine ⟨⟨root, ?_⟩, fun l hdeleted => ⟨?_, fun hlost => ?_⟩, fun hnone l => ?_⟩
  · rintro l (hlost | hlost)
    · exact hopened.unit_of_loses hlost
    · exact unit_of_loses_healedAt ht' hopened.names hlost
  · rintro ⟨path, hpath, htext⟩
    obtain ⟨name, node, hname, rfl, hnode⟩ := exists_of_mem_discarded ht' hl hpath
    obtain ⟨hnames, hne⟩ := hdeleted.elim (·.isPlace ht) (·.isPlace ht')
    cases text_absolute_inj (IsFileName.concat hl hname) hnames
      (List.append_ne_nil_of_right_ne_nil _ (List.cons_ne_nil _ _)) hne htext
    -- What the second reading reports was still there after the first one.
    exact hdeleted.resolve_left fun hlost => absurd (hnode.symm.trans hlost.2) nofun
  · exact ⟨_, mem_discarded_of_loses _ ht' hl hlost, rfl⟩
  · rw [hopened.healedAt_eq hnone]
    rintro (hlost | hlost)
    · exact hnone l hlost
    · exact not_loses_self hlost

theorem cleanOrphans_reports (ht : t.WellFormed)
    (hroot : rootAndConfig project t = .ok (path, config))
    (h : (cleanOrphans project t).failure? = none) :
    let r := cleanOrphans project t
    let s := stages project t r
    (∃ root, ∀ l, s.Deletes l → ∃ u, u ≠ "" ∧ l = artifactsAt root ++ [fileName u]) ∧
    (∀ l, s.Deletes l → (Removes r l ↔ s.reread.Loses s.left l)) ∧
    (∀ l, s.found.Loses s.opened l → ¬ s.reread.Loses s.left l) ∧
    ((∀ l, ¬ s.found.Loses s.opened l) → ∀ l, ¬ s.opened.Loses s.reread l) := by
  obtain ⟨p, t', removed, p', t'', hopen, hremoved⟩ := cleanOrphans_ok hroot h
  obtain ⟨root, node, made, hfind, hopened⟩ := openAt_ok ht hopen
  have ht' := hopened.wellFormed
  have hhealed := healedAt_wellFormed ht' hopened.names
  have hcleared := removeOrphans_ok ht' hopened.names hopened.root_eq hremoved
  obtain ⟨_, htrim⟩ := healedAt_trimmed ht' hopened.names
  rw [cleanOrphans_of_removed hroot hopen hremoved]
  dsimp only
  rw [stages_eq hroot hopen hopened.names hopened.root_eq]
  have hunit : ∀ l, Stages.Deletes ⟨t, t', healedAt root t', t''⟩ l →
      ∃ u, u ≠ "" ∧ l = artifactsAt root ++ [fileName u] := by
    rintro l (hlost | hlost | hlost)
    · exact hopened.unit_of_loses hlost
    · exact unit_of_loses_healedAt ht' hopened.names hlost
    · obtain ⟨u, hu, rfl⟩ := hcleared.exists_of_loses hlost
      exact ⟨u, hcleared.ne_empty hhealed hu, rfl⟩
  refine ⟨⟨root, hunit⟩, fun l hdeleted => ?_, fun l hlost hswept => ?_, fun hnone l => ?_⟩
  · obtain ⟨u, hu, rfl⟩ := hunit l hdeleted
    rw [removes_removalLines hu]
    constructor
    · intro hgone
      -- What the sweep takes was still there after both readings.
      obtain ⟨node, hnode⟩ := hcleared.there hhealed hopened.names hgone
      have hnode' := htrim.node?_of_some hnode
      rcases hdeleted with hlost | hlost | hlost
      · exact absurd (hnode'.symm.trans hlost.2) nofun
      · exact absurd (hnode.symm.trans hlost.2) nofun
      · exact hlost
    · intro hlost
      obtain ⟨v, hv, he⟩ := hcleared.exists_of_loses hlost
      rw [List.append_cancel_left_eq, List.cons.injEq, fileName_inj] at he
      exact he.1 ▸ hv
  · obtain ⟨node, hnode⟩ := hswept.there
    exact absurd ((htrim.node?_of_some hnode).symm.trans hlost.2) nofun
  · rw [hopened.healedAt_eq hnone]
    exact not_loses_self

end Commands

/-- What the opening of a project deletes is in no report. -/
theorem deletions_reported_iff {t : FileTree} (ht : t.WellFormed) (project : Option String)
    (verbose : Bool) (compiler : String) (overrides : Overrides) (programs : Programs) :
    let built := build project verbose compiler overrides programs t
    let cleaned := cleanOrphans project t
    (built.failure? = none →
      let s := stages project t built
      (∃ root, ∀ l, s.Deletes l → ∃ u, u ≠ "" ∧ l = artifactsAt root ++ [fileName u]) ∧
      (∀ l, s.Deletes l → (Discards built l ↔ s.opened.Loses s.reread l)) ∧
      ((∀ l, s.Deletes l → Discards built l) ↔ ∀ l, ¬ s.Deletes l)) ∧
    (cleaned.failure? = none →
      let s := stages project t cleaned
      (∃ root, ∀ l, s.Deletes l → ∃ u, u ≠ "" ∧ l = artifactsAt root ++ [fileName u]) ∧
      (∀ l, s.Deletes l → (Removes cleaned l ↔ s.reread.Loses s.left l)) ∧
      ((∀ l, s.Deletes l → Removes cleaned l) ↔ ∀ l, ¬ s.found.Loses s.opened l)) := by
  refine ⟨fun h => ?_, fun h => ?_⟩
  · obtain ⟨path, config, hroot⟩ := rootAndConfig_of_build h
    obtain ⟨hunit, hreported, hquiet⟩ := build_reports ht hroot h
    refine ⟨hunit, hreported, fun hall => hquiet fun l hlost => ?_,
      fun hnone l hdeleted => absurd hdeleted (hnone l)⟩
    -- What the opening has deleted cannot be deleted once more.
    have hagain := (hreported l (.inl hlost)).1 (hall l (.inl hlost))
    exact hlost.not_loses hagain
  · obtain ⟨path, config, hroot⟩ := rootAndConfig_of_cleanOrphans h
    obtain ⟨hunit, hreported, hgone, hquiet⟩ := cleanOrphans_reports ht hroot h
    refine ⟨hunit, hreported, fun hall l hlost => ?_, fun hnone l hdeleted => ?_⟩
    · exact hgone l hlost ((hreported l (.inl hlost)).1 (hall l (.inl hlost)))
    · have hswept := (hdeleted.resolve_left (hnone l)).resolve_left (hquiet hnone l)
      exact (hreported l hdeleted).2 hswept

namespace SampleRuns

open Project.Sample

def fileOf (unit : String) : Location := artifactsAt Sample.root ++ [fileName unit]

def stray : FileTree :=
  ⟨[(Sample.root, .directory), (Sample.root ++ ["build"], .directory),
    (artifactsAt Sample.root, .directory), (fileOf "B", .file []),
    (Sample.root ++ [SourceSet.directory], .directory)], []⟩

def builtStray : Run := built stray startRequest pairText

def swept (t : FileTree) : Run := cleanOrphans (some "/p") t

theorem opened_named :
    ∃ p, openAt (.absolute Sample.root) none edited = (.ok p, edited) ∧
      p.root = .absolute Sample.root := by
  have hopen := openAt_eq none names_root find_edited edited_directories
    (by rw [readAt_edited.2]; exact second_leads.2.1)
  rw [readAt_edited.2] at hopen
  exact ⟨_, hopen, rfl⟩

theorem swept_edited : swept edited =
    { lines := removalLines (.ofList ["M"]), tree := sweptEdit.2.2 } := by
  obtain ⟨p, hopen, hp⟩ := opened_named
  exact cleanOrphans_of_removed root_edited hopen (removeOrphans_edited hp)

theorem stages_edited (r : Run) :
    stages (some "/p") edited r = ⟨edited, edited, edited, r.tree⟩ := by
  obtain ⟨p, hopen, hp⟩ := opened_named
  rw [stages_eq root_edited hopen names_root hp, readAt_edited.2]

theorem stray_wellFormed : stray.WellFormed := ⟨by decide, by decide, by decide⟩

theorem builtStray_ends : builtStray.failure? = none ∧ builtStray.lines =
    ["   Building PProject (/p)", "   Up to date",
      "   Finished 0 unit(s) recompiled, 0 deployable"] := by
  decide +kernel

theorem opened_stray (r : Run) : (stages (some "/p") stray r).found.Loses
    (stages (some "/p") stray r).opened (fileOf "B") := by
  have hthere : stray.node? (fileOf "B") = some (.file []) := by decide
  have hgone : (stages (some "/p") stray { tree := stray }).opened.node? (fileOf "B") = none := by
    decide +kernel
  refine ⟨⟨[], ?_⟩, (opened_stages _ _ r _).symm ▸ hgone⟩
  rw [found_stages, hthere]

end SampleRuns

open Project.Sample SampleRuns in
theorem deletions_reported_after_edit :
    (builtStray.failure? = none ∧ (stages (some "/p") stray builtStray).Deletes (fileOf "B") ∧
      ¬ Discards builtStray (fileOf "B") ∧
      ¬ ∀ l, (stages (some "/p") stray builtStray).Deletes l → Discards builtStray l) ∧
    (swept edited).failure? = none ∧
    (stages (some "/p") edited (swept edited)).Deletes (fileOf "M") ∧
    ∀ l, (stages (some "/p") edited (swept edited)).Deletes l → Removes (swept edited) l := by
  have hlost := opened_stray builtStray
  obtain ⟨-, hreported, hquiet⟩ := (deletions_reported_iff stray_wellFormed (some "/p") false "cc" {}
    (.knowing startRequest pairText)).1 builtStray_ends.1
  have hfine : (swept edited).failure? = none := by rw [swept_edited]
  have hgone : edited.Loses sweptEdit.2.2 (fileOf "M") := by
    have hcleared := removeOrphans_ok edited_mirrored.wellFormed names_root rfl reopened_swept
    have hstored : (firstRound.store.over unbuilt).contains "M" = true := by decide +kernel
    obtain ⟨a, ha⟩ := NameMap.contains_iff.1 hstored
    have hfile := node?_of_onDisk? ((edited_mirrored.onDisk?_eq "M").trans ha)
    exact ⟨hfile, hcleared.node?_of_removed "M" (by decide)⟩
  obtain ⟨-, -, hall⟩ := (deletions_reported_iff edited_mirrored.wellFormed (some "/p") false "cc" {}
    (.knowing startRequest pairText)).2 hfine
  refine ⟨⟨builtStray_ends.1, .inl hlost, fun hsaid => ?_, fun hsaid => ?_⟩, hfine, ?_,
    hall.2 fun l => ?_⟩
  · exact hlost.not_loses ((hreported _ (.inl hlost)).1 hsaid)
  · exact hquiet.1 hsaid _ (.inl hlost)
  · rw [stages_edited, swept_edited]
    exact .inr (.inr hgone)
  · rw [stages_edited]
    exact not_loses_self

open Project.Sample SampleRuns in
theorem opening_deletes_unreported :
    stray.WellFormed ∧
    (builtStray.failure? = none ∧ (stages (some "/p") stray builtStray).Deletes (fileOf "B") ∧
      ¬ Discards builtStray (fileOf "B")) ∧
    ((swept stray).failure? = none ∧ (stages (some "/p") stray (swept stray)).Deletes (fileOf "B") ∧
      ¬ Removes (swept stray) (fileOf "B")) := by
  have hswept : (swept stray).failure? = none ∧ (swept stray).lines = ["   Cleaned 0 artifact(s)"] := by
    decide +kernel
  refine ⟨stray_wellFormed, ⟨builtStray_ends.1, .inl (opened_stray _), ?_⟩,
    ⟨hswept.1, .inl (opened_stray _), ?_⟩⟩
  · rw [Discards, builtStray_ends.2]
    decide
  · rintro ⟨name, hname, hline⟩
    cases hname
    rw [hswept.2] at hline
    revert hline
    decide

end CommandLine
end ContractBuild
