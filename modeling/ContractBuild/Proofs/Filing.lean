import ContractBuild.Proofs.Identifiers
import ContractBuild.Proofs.Reloading

/-! Where the files of a round are. Each one that an installation writes stands under the name of its
unit and holds what the store has for that unit, also if the installation fails half-way. -/

namespace ContractBuild

theorem isUnitName_of_containsUnit {files : NameMap String} {u : String}
    (h : (SourceSet.ofFiles files).containsUnit u = true) : Store.IsUnitName u := by
  obtain ⟨path, hpath⟩ := SourceSet.containsUnit_iff.1 h
  obtain ⟨text, -, d, hd, rfl⟩ := SourceSet.declared_at_path hpath
  have hname := Source.isIdentifier_of_mem_declarations hd
  exact ⟨hname.ne_empty, hname.noSlash⟩

namespace Store

open FileTree ContractBuild.Path

section Add

variable {s s' : Store} {a : Artifact} {t t' : FileTree} {d : Path} {result : Except StoreError Unit}

theorem add_leaves (ht : t.WellFormed) (hd : d.Plain) (hs : s.directory = some d)
    (h : s.add a t = (result, s', t')) : t'.WellFormed ∧ KeepsDirectories t t' ∧
      s'.directory = some d ∧ ∀ u, u ≠ a.name → s'.get? u = s.get? u := by
  cases result with
  | error e =>
    have hext := add_extends ht hd hs h
    refine ⟨hext.wellFormed, hext.keepsDirectories, ?_⟩
    rw [add_error h]
    exact ⟨hs, fun _ _ => rfl⟩
  | ok =>
    obtain ⟨before, place, r⟩ := add_replaced ht hd hs h
    refine ⟨r.wellFormed, r.keepsDirectories, ?_⟩
    rw [add_ok h]
    refine ⟨hs, fun u hu => ?_⟩
    rw [get?, NameMap.get?_insert, if_neg hu, get?]

end Add

section Install

variable {sources : SourceSet} {minified : Bool} {d : Path} {entries : List (String × Artifact)}
  {s s' : Store} {t t' : FileTree} {result : Except StoreError Unit}

theorem install_leaves (ht : t.WellFormed) (hd : d.Plain) (hs : s.directory = some d)
    (h : s.install sources minified t entries = (result, s', t')) : t'.WellFormed ∧
      KeepsDirectories t t' ∧ ∀ u ∉ entries.map (·.1), s'.get? u = s.get? u := by
  induction entries generalizing s t with
  | nil =>
    cases h
    exact ⟨ht, ⟨rfl, fun _ hk => hk⟩, fun _ _ => rfl⟩
  | cons e rest ih =>
    obtain ⟨unit, a⟩ := e
    rw [install] at h
    have hfirst : ∀ u ∉ ((unit, a) :: rest).map (·.1), u ≠ unit ∧ u ∉ rest.map (·.1) := by
      intro u hu
      rwa [List.map_cons, List.mem_cons, not_or] at hu
    split at h
    · rename_i hadd
      cases h
      obtain ⟨ht', hdirs, -, hget⟩ := add_leaves ht hd hs hadd
      exact ⟨ht', hdirs, fun u hu => hget u (hfirst u hu).1⟩
    · rename_i hadd
      obtain ⟨ht₁, hdirs₁, hs₁, hget₁⟩ := add_leaves ht hd hs hadd
      obtain ⟨ht', hdirs, hget⟩ := ih ht₁ hs₁ h
      refine ⟨ht', ⟨hdirs.workingDirectory.trans hdirs₁.workingDirectory,
        fun k hk => hdirs.directory k (hdirs₁.directory k hk)⟩, fun u hu => ?_⟩
      exact (hget u (hfirst u hu).2).trans (hget₁ u (hfirst u hu).1)

/-- The file of a unit, where it is, holds what the store has for the unit. -/
structure Filed (d : Path) (s : Store) (t : FileTree) (u : String) (k : Location) : Prop where
  place : t.locate (d.joinText (fileName u)) = .ok k
  content : ∃ a, s.get? u = some a ∧ a.name = u ∧
    t.node? k = some (.file (Text.bytes a.canonicalText))

theorem filed_of_add {a : Artifact} {s₁ : Store} {t₁ before : FileTree} {place : Location}
    (ht : t₁.WellFormed) (hd : d.Plain) (hs : s₁.directory = some d)
    (hadd : s.add a t = (.ok (), s₁, t₁))
    (r : Replaced t (d.joinText (fileName a.name)) (Text.bytes a.canonicalText) before place t₁)
    (h : s₁.install sources minified t₁ entries = (result, s', t'))
    (hother : a.name ∉ entries.map (·.1))
    (hnode : t'.node? place = some (.file (Text.bytes a.canonicalText))) :
    Filed d s' t' a.name place := by
  obtain ⟨-, hdirs, hget⟩ := install_leaves ht hd hs h
  refine ⟨locate_of_keepsDirectories hdirs
    (locate_of_keepsDirectories r.keepsDirectories_before r.locate_place), a, ?_, rfl, hnode⟩
  rw [hget a.name hother, add_ok hadd, get?, NameMap.get?_insert]
  exact if_pos rfl

theorem install_files (ht : t.WellFormed) (hd : d.Plain) (hs : s.directory = some d)
    (hunique : (entries.map (·.1)).Nodup)
    (h : s.install sources minified t entries = (result, s', t')) {k : Location}
    {content : List UInt8} (hnode : t'.node? k = some (.file content)) :
    t.node? k = some (.file content) ∨ ∃ u ∈ entries.map (·.1), Filed d s' t' u k := by
  induction entries generalizing s t with
  | nil =>
    cases h
    exact Or.inl hnode
  | cons e rest ih =>
    obtain ⟨unit, a⟩ := e
    rw [List.map_cons, List.nodup_cons] at hunique
    rw [install] at h
    split at h
    · rename_i hadd
      cases h
      exact Or.inl ((add_extends ht hd hs hadd).node?_file_iff.1 hnode)
    · rename_i hadd
      obtain ⟨ht₁, -, hs₁, -⟩ := add_leaves ht hd hs hadd
      obtain ⟨before, place, r⟩ := add_replaced ht hd hs hadd
      rcases ih ht₁ hs₁ hunique.2 h with hbefore | ⟨u, hu, hfiled⟩
      · -- A file that was there before the rest is this unit's, or an older one.
        rw [r.node?_eq] at hbefore
        split at hbefore
        · rename_i hk
          cases hbefore
          cases hk
          exact Or.inr ⟨unit, List.mem_cons_self, filed_of_add ht₁ hd hs₁ hadd r h hunique.1 hnode⟩
        · exact Or.inl (r.before_extends.node?_file_iff.1 hbefore)
      · exact Or.inr ⟨u, List.mem_cons_of_mem _ hu, hfiled⟩

theorem install_keeps_file {l : Location} (ht : t.WellFormed) (hd : d.Plain) (hne : d.text ≠ "")
    (hs : s.directory = some d) (hnames : ∀ e ∈ entries, IsUnitName e.1)
    (h : s.install sources minified t entries = (result, s', t'))
    (hl : t.find d = .ok (l, .directory)) {u : String} (hu : u ∉ entries.map (·.1)) {node : Node}
    (hnode : t.node? (l ++ [fileName u]) = some node) :
    t'.node? (l ++ [fileName u]) = some node := by
  induction entries generalizing s t with
  | nil =>
    cases h
    exact hnode
  | cons e rest ih =>
    obtain ⟨unit, a⟩ := e
    rw [List.map_cons, List.mem_cons, not_or] at hu
    rw [install] at h
    split at h
    · rename_i hadd
      cases h
      exact (add_extends ht hd hs hadd).kept _ _ hnode
    · rename_i hadd
      obtain ⟨ht₁, hdirs, hs₁, -⟩ := add_leaves ht hd hs hadd
      obtain ⟨before, place, r⟩ := add_replaced ht hd hs hadd
      have hl₁ := find_directory_of_keepsDirectories hdirs hl
      obtain ⟨l', hl', -, -, hplace, -, -⟩ := exists_place hne (hnames _ List.mem_cons_self) r
      cases hl₁.symm.trans hl'
      refine ih ht₁ hs₁ (fun e he => hnames e (List.mem_cons_of_mem _ he)) h hl₁ hu.2 ?_
      rw [r.node?_eq, if_neg, r.before_extends.kept _ _ hnode]
      rw [hplace, List.append_cancel_left_eq, List.cons.injEq, fileName_inj]
      exact fun he => hu.1 he.1

theorem filed_of_install_ok (ht : t.WellFormed) (hd : d.Plain) (hne : d.text ≠ "")
    (hs : s.directory = some d) (hunique : (entries.map (·.1)).Nodup)
    (hnames : ∀ e ∈ entries, IsUnitName e.1)
    (h : s.install sources minified t entries = (.ok (), s', t')) {u : String}
    (hu : u ∈ entries.map (·.1)) : ∃ k, Filed d s' t' u k := by
  induction entries generalizing s t with
  | nil => exact absurd hu List.not_mem_nil
  | cons e rest ih =>
    obtain ⟨unit, a⟩ := e
    rw [List.map_cons, List.nodup_cons] at hunique
    have hnames' := fun e he => hnames e (List.mem_cons_of_mem (unit, a) he)
    obtain ⟨s₁, t₁, hadd, hs₁, hrest⟩ := install_cons_ok h
    obtain ⟨ht₁, -, hs₁, -⟩ := add_leaves ht hd hs hadd
    rw [List.map_cons, List.mem_cons] at hu
    rcases hu with rfl | hu
    · obtain ⟨before, place, r⟩ := add_replaced ht hd hs hadd
      obtain ⟨l, hl, -, -, rfl, hnode, -⟩ := exists_place hne (hnames _ List.mem_cons_self) r
      exact ⟨_, filed_of_add ht₁ hd hs₁ hadd r hrest hunique.1
        (install_keeps_file ht₁ hd hne hs₁ hnames' hrest hl hunique.1 hnode)⟩
    · exact ih ht₁ hs₁ hunique.2 hnames' hrest hu

end Install

end Store

section Rounds

variable {sources : SourceSet} {store : Store} {compiler : Compiler} {settings : Settings}
  {t : FileTree}

theorem rebuild_cases (sources : SourceSet) (store : Store) (compiler : Compiler)
    (settings : Settings) (t : FileTree) :
    (rebuild sources store compiler settings t).tree = t ∨
      ∃ request artifacts result, compiler request = .ok artifacts ∧
        (keptStore sources store settings).install sources settings.minifySource t
            artifacts.entries = (result, (rebuild sources store compiler settings t).store,
              (rebuild sources store compiler settings t).tree) := by
  have hends := rebuild_ends sources store compiler settings t
  generalize rebuild sources store compiler settings t = round at hends ⊢
  cases hends with
  | unasked => exact Or.inl rfl
  | unanswered => exact Or.inl rfl
  | stopped _ hc hi => exact Or.inr ⟨_, _, _, hc, hi⟩
  | installed _ hc hi => exact Or.inr ⟨_, _, _, hc, hi⟩

theorem rebuild_files {d : Path} (ht : t.WellFormed) (hd : d.Plain) (hs : store.directory = some d)
    {k : Location} {content : List UInt8}
    (hnode : (rebuild sources store compiler settings t).tree.node? k = some (.file content)) :
    t.node? k = some (.file content) ∨
      ∃ request artifacts, compiler request = .ok artifacts ∧ ∃ u, artifacts.contains u = true ∧
        Store.Filed d (rebuild sources store compiler settings t).store
          (rebuild sources store compiler settings t).tree u k := by
  rcases rebuild_cases sources store compiler settings t with
    htree | ⟨request, artifacts, result, hanswer, hinstall⟩
  · exact Or.inl (htree ▸ hnode)
  · have hkept : (keptStore sources store settings).directory = some d := hs
    refine (Store.install_files ht hd hkept artifacts.nodup_names hinstall hnode).imp_right ?_
    rintro ⟨u, hu, hfiled⟩
    exact ⟨request, artifacts, hanswer, u, NameMap.mem_names_iff.1 hu, hfiled⟩

theorem filed_of_rebuild_ok {d : Path} (ht : t.WellFormed) (hd : d.Plain) (hne : d.text ≠ "")
    (hs : store.directory = some d) (hnames : ∀ request artifacts,
      compiler request = .ok artifacts → ∀ u, artifacts.contains u = true → Store.IsUnitName u)
    {summary : BuildSummary} (h : (rebuild sources store compiler settings t).result = .ok summary)
    {u : String} (hu : u ∈ summary.installed) :
    ∃ k, Store.Filed d (rebuild sources store compiler settings t).store
      (rebuild sources store compiler settings t).tree u k := by
  obtain ⟨-, -, ⟨-, hnone, -, -⟩ | ⟨request, artifacts, -, hanswer, hinstalled, hinstall⟩⟩ :=
    rebuild_ok h
  · rw [hnone] at hu
    cases hu
  · rw [hinstalled] at hu
    have hkept : (keptStore sources store settings).directory = some d := hs
    refine Store.filed_of_install_ok ht hd hne hkept artifacts.nodup_names (fun e he => ?_)
      hinstall hu
    exact hnames request artifacts hanswer e.1
      (NameMap.contains_iff.2 ⟨e.2, NameMap.get?_eq_some_iff.2 he⟩)

end Rounds

end ContractBuild
