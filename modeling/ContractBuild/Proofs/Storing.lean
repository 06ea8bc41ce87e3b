import ContractBuild.Proofs.ArtifactText
import ContractBuild.Proofs.Loading
import ContractBuild.Proofs.Rebuild

/-! What storing artifacts leaves in the directory of a store. The names of units are those that a
compiler returned, and a path made of one may lead anywhere; still, no unit's file holds anything
afterwards but what was stored for the unit, or what was there before. -/

namespace ContractBuild

namespace Store

open FileTree ContractBuild.Path

/-- A name whose file is directly in the directory of its store, and is found again there. -/
structure IsUnitName (u : String) : Prop where
  ne_empty : u ≠ ""
  noSlash : '/' ∉ u.toList

theorem fileName_noSlash {u : String} : '/' ∉ (fileName u).toList ↔ '/' ∉ u.toList := by
  simp [fileName, fileExtension]

theorem isStep_fileName (u : String) : isStep (fileName u) = true ∧ fileName u ≠ ".." := by
  have hlast : (fileName u).toList.getLast? = some 'n' := by
    simp [fileName, fileExtension]
  have hne : ∀ s : String, s.toList.getLast? ≠ some 'n' → fileName u ≠ s := by
    rintro s hs rfl
    exact hs hlast
  have hempty := hne "" (by decide)
  have hdot := hne "." (by decide)
  rw [isStep, Bool.and_eq_true, bne_iff_ne, bne_iff_ne]
  exact ⟨⟨hempty, hdot⟩, hne ".." (by decide)⟩

theorem isUnitName_of_onDisk? {t : FileTree} (ht : t.WellFormed) {l : Location} {u : String}
    {a : Artifact} (h : onDisk? t l u = some a) : IsUnitName u := by
  obtain ⟨content, hnode⟩ := node?_of_onDisk? h
  have hname := ht.names hnode _ (List.mem_append_right l List.mem_cons_self)
  exact ⟨ne_empty_of_onDisk? h, fileName_noSlash.1 hname.noSlash⟩

theorem onDisk?_of_sameFiles {t t' : FileTree}
    (h : ∀ k content, t'.node? k = some (.file content) ↔ t.node? k = some (.file content))
    (l : Location) (u : String) : onDisk? t' l u = onDisk? t l u := by
  ext a
  rw [onDisk?_eq_some_iff, onDisk?_eq_some_iff]
  refine and_congr_right fun _ => and_congr_right fun _ => ?_
  simp only [h]

theorem onDisk?_of_extends {t t' : FileTree} (h : Extends t t') (l : Location) (u : String) :
    onDisk? t' l u = onDisk? t l u := onDisk?_of_sameFiles (fun _ _ => h.node?_file_iff) l u

section Add

variable {s s' : Store} {l : Location} {a : Artifact} {t t' : FileTree}

theorem add_replaced {d : Path} (ht : t.WellFormed) (hd : d.Plain) (hs : s.directory = some d)
    (h : s.add a t = (.ok (), s', t')) :
    ∃ before place, Replaced t (d.joinText (fileName a.name)) (Text.bytes a.canonicalText)
      before place t' := by
  rw [add, artifactPath?, hs] at h
  dsimp only [Option.map_some] at h
  split at h
  · cases h
  · rename_i hreplaced
    cases h
    exact replaceInto_ok ht (plain_join hd (plain_ofText _)) hreplaced

theorem add_extends {d : Path} (ht : t.WellFormed) (hd : d.Plain) (hs : s.directory = some d)
    {e : StoreError} (h : s.add a t = (.error e, s', t')) : Extends t t' := by
  rw [add, artifactPath?, hs] at h
  dsimp only [Option.map_some] at h
  split at h
  · rename_i hreplaced
    cases h
    exact replaceInto_error ht (plain_join hd (plain_ofText _)) hreplaced
  · cases h

theorem add_ok_replaced (ht : t.WellFormed) (hl : ∀ n ∈ l, IsFileName n)
    (hs : s.directory = some (.absolute l)) (h : s.add a t = (.ok (), s', t')) :
    ∃ before place, Replaced t ((Path.absolute l).joinText (fileName a.name))
      (Text.bytes a.canonicalText) before place t' := add_replaced ht (plain_absolute hl) hs h

theorem add_error_extends (ht : t.WellFormed) (hl : ∀ n ∈ l, IsFileName n)
    (hs : s.directory = some (.absolute l)) {e : StoreError}
    (h : s.add a t = (.error e, s', t')) : Extends t t' := add_extends ht (plain_absolute hl) hs h

theorem place_of_isUnitName (hl : ∀ n ∈ l, IsFileName n) {u : String} (hu : IsUnitName u)
    {content : List UInt8} {before : FileTree} {place : Location}
    (r : Replaced t ((Path.absolute l).joinText (fileName u)) content before place t') :
    place = l ++ [fileName u] ∧ Fits (l ++ [fileName u]) := by
  have hslash := fileName_noSlash.2 hu.noSlash
  have hlocate := r.locate_place
  rw [absolute_joinText hl hslash] at hlocate
  exact (locate_concat_ok hl (isStep_fileName u).1 (isStep_fileName u).2 hslash hlocate).2

theorem node?_add (ht : t.WellFormed) (hl : ∀ n ∈ l, IsFileName n)
    (hs : s.directory = some (.absolute l)) (h : s.add a t = (.ok (), s', t'))
    (hname : IsUnitName a.name) {k : Location} (hk : ¬ k <+: l ++ [fileName a.name]) :
    t'.node? k = t.node? k := by
  obtain ⟨before, place, r⟩ := add_ok_replaced ht hl hs h
  have hslash := fileName_noSlash.2 hname.noSlash
  rw [absolute_joinText hl hslash] at r
  have hfile := (locate_concat_ok hl (isStep_fileName _).1 (isStep_fileName _).2 hslash
    r.locate_place).1
  exact r.node?_eq_of_not_prefix hl hfile hk

theorem onDisk?_add (ht : t.WellFormed) (hl : ∀ n ∈ l, IsFileName n)
    (hs : s.directory = some (.absolute l)) (h : s.add a t = (.ok (), s', t')) {u : String}
    {b : Artifact} (hb : onDisk? t' l u = some b) :
    (u = a.name ∧ Artifact.ofText a.canonicalText = .ok b) ∨
      (u ≠ a.name ∧ onDisk? t l u = some b) := by
  obtain ⟨before, place, r⟩ := add_ok_replaced ht hl hs h
  have hunit := isUnitName_of_onDisk? r.wellFormed hb
  by_cases hplace : l ++ [fileName u] = place
  · left
    obtain ⟨-, -, content, text, hnode, htext, hread, hname⟩ := onDisk?_eq_some_iff.1 hb
    rw [r.node?_eq, if_pos hplace] at hnode
    cases hnode
    rw [Text.ofBytes?_bytes] at htext
    cases htext
    have hsame := congrArg Artifact.name (Artifact.eq_of_ofText_canonicalText hread)
    exact ⟨hname.symm.trans hsame, hread⟩
  · right
    have hne : u ≠ a.name := by
      rintro rfl
      exact hplace (place_of_isUnitName hl hunit r).1.symm
    refine ⟨hne, ?_⟩
    rw [← onDisk?_of_extends r.before_extends, ← hb]
    apply onDisk?_congr
    rw [r.node?_eq, if_neg hplace]

theorem onDisk?_add_eq (ht : t.WellFormed) (hl : ∀ n ∈ l, IsFileName n)
    (hs : s.directory = some (.absolute l)) (h : s.add a t = (.ok (), s', t'))
    (hname : IsUnitName a.name) (hread : a.ReadsBack) (u : String) :
    onDisk? t' l u = if u = a.name then some a else onDisk? t l u := by
  obtain ⟨before, place, r⟩ := add_ok_replaced ht hl hs h
  obtain ⟨rfl, hfits⟩ := place_of_isUnitName hl hname r
  split
  · rename_i hu
    rw [hu]
    refine onDisk?_eq_some_iff.2 ⟨hname.ne_empty, hfits, _, _, ?_, Text.ofBytes?_bytes _, hread, rfl⟩
    rw [r.node?_eq, if_pos rfl]
  · rename_i hu
    rw [← onDisk?_of_extends r.before_extends]
    apply onDisk?_congr
    rw [r.node?_eq, if_neg]
    rw [List.append_cancel_left_eq, List.cons.injEq, fileName_inj]
    exact fun h => hu h.1

theorem add_tidy (ht : t.WellFormed) (hl : ∀ n ∈ l, IsFileName n)
    (hs : s.directory = some (.absolute l)) (h : s.add a t = (.ok (), s', t'))
    (hname : IsUnitName a.name) (hread : a.ReadsBack) (htidy : Tidy t l) : Tidy t' l := by
  intro name content hext hfits hnode
  rw [onDisk?_add_eq ht hl hs h hname hread]
  by_cases hstem : stemOf name = a.name
  · exact ⟨a, if_pos hstem⟩
  · obtain ⟨before, place, r⟩ := add_ok_replaced ht hl hs h
    have hplace : l ++ [name] ≠ place := by
      intro he
      rw [(place_of_isUnitName hl hname r).1, List.append_cancel_left_eq, List.cons.injEq] at he
      rw [he.1, stemOf_fileName hname.ne_empty] at hstem
      exact hstem rfl
    rw [r.node?_eq, if_neg hplace, r.before_extends.node?_file_iff] at hnode
    rw [if_neg hstem]
    exact htidy name content hext hfits hnode

end Add

section Install

variable {sources : SourceSet} {minified : Bool} {l : Location} {entries : List (String × Artifact)}
  {s s' : Store} {t t' : FileTree}

theorem install_cons_ok {unit : String} {a : Artifact} {rest : List (String × Artifact)}
    (h : s.install sources minified t ((unit, a) :: rest) = (.ok (), s', t')) :
    ∃ s₁ t₁, s.add (a.adopted unit sources minified) t = (.ok (), s₁, t₁) ∧
      s₁.directory = s.directory ∧ s₁.install sources minified t₁ rest = (.ok (), s', t') := by
  rw [install] at h
  split at h
  · cases h
  · rename_i hadd
    refine ⟨_, _, hadd, ?_, h⟩
    rw [add_ok hadd]

theorem install_wellFormed (ht : t.WellFormed) (hl : ∀ n ∈ l, IsFileName n)
    (hs : s.directory = some (.absolute l))
    (h : s.install sources minified t entries = (.ok (), s', t')) : t'.WellFormed := by
  induction entries generalizing s t with
  | nil =>
    cases h
    exact ht
  | cons e rest ih =>
    obtain ⟨s₁, t₁, hadd, hs₁, hrest⟩ := install_cons_ok h
    obtain ⟨before, place, r⟩ := add_ok_replaced ht hl hs hadd
    exact ih r.wellFormed (hs₁.trans hs) hrest

theorem node?_install (ht : t.WellFormed) (hl : ∀ n ∈ l, IsFileName n)
    (hs : s.directory = some (.absolute l))
    (h : s.install sources minified t entries = (.ok (), s', t'))
    (hnames : ∀ e ∈ entries, IsUnitName e.1) {k : Location} (hk : ∀ name, ¬ k <+: l ++ [name]) :
    t'.node? k = t.node? k := by
  induction entries generalizing s t with
  | nil =>
    cases h
    rfl
  | cons e rest ih =>
    obtain ⟨unit, a⟩ := e
    obtain ⟨s₁, t₁, hadd, hs₁, hrest⟩ := install_cons_ok h
    obtain ⟨before, place, r⟩ := add_ok_replaced ht hl hs hadd
    rw [ih r.wellFormed (hs₁.trans hs) hrest fun e he => hnames e (List.mem_cons_of_mem _ he)]
    exact node?_add ht hl hs hadd (hnames (unit, a) List.mem_cons_self) (hk _)

theorem pathExists_install (ht : t.WellFormed) (hl : ∀ n ∈ l, IsFileName n)
    (hs : s.directory = some (.absolute l))
    (h : s.install sources minified t entries = (.ok (), s', t')) {p : Path}
    (hp : t.pathExists p = true) : t'.pathExists p = true := by
  induction entries generalizing s t with
  | nil =>
    cases h
    exact hp
  | cons e rest ih =>
    obtain ⟨unit, a⟩ := e
    obtain ⟨s₁, t₁, hadd, hs₁, hrest⟩ := install_cons_ok h
    obtain ⟨before, place, r⟩ := add_ok_replaced ht hl hs hadd
    exact ih r.wellFormed (hs₁.trans hs) hrest
      (pathExists_of_kept r.keepsDirectories (fun _ _ hk => r.kept hk) hp)

theorem onDisk?_install (ht : t.WellFormed) (hl : ∀ n ∈ l, IsFileName n)
    (hs : s.directory = some (.absolute l))
    (h : s.install sources minified t entries = (.ok (), s', t')) {u : String} {b : Artifact}
    (hb : onDisk? t' l u = some b) :
    (∃ a, (u, a) ∈ entries ∧
        Artifact.ofText (a.adopted u sources minified).canonicalText = .ok b) ∨
      (u ∉ entries.map (·.1) ∧ onDisk? t l u = some b) := by
  induction entries generalizing s t with
  | nil =>
    cases h
    exact Or.inr ⟨List.not_mem_nil, hb⟩
  | cons e rest ih =>
    obtain ⟨unit, a⟩ := e
    obtain ⟨s₁, t₁, hadd, hs₁, hrest⟩ := install_cons_ok h
    obtain ⟨before, place, r⟩ := add_ok_replaced ht hl hs hadd
    rcases ih r.wellFormed (hs₁.trans hs) hrest with ⟨a', hmem, hread⟩ | ⟨hout, hbefore⟩
    · exact Or.inl ⟨a', List.mem_cons_of_mem _ hmem, hread⟩
    · rcases onDisk?_add ht hl hs hadd hbefore with ⟨rfl, hread⟩ | ⟨hne, hold⟩
      · exact Or.inl ⟨a, List.mem_cons_self, hread⟩
      · refine Or.inr ⟨?_, hold⟩
        rw [List.map_cons, List.mem_cons, not_or]
        exact ⟨hne, hout⟩

theorem onDisk?_install_eq (ht : t.WellFormed) (hl : ∀ n ∈ l, IsFileName n)
    (hs : s.directory = some (.absolute l))
    (h : s.install sources minified t entries = (.ok (), s', t'))
    (hnames : ∀ e ∈ entries, IsUnitName e.1)
    (hread : ∀ e ∈ entries, (e.2.adopted e.1 sources minified).ReadsBack) (u : String) :
    onDisk? t' l u =
      ((adoptedEntries sources minified entries).reverse.lookup u).or (onDisk? t l u) := by
  induction entries generalizing s t with
  | nil =>
    cases h
    rw [adoptedEntries, List.map_nil, List.reverse_nil, List.lookup_nil, Option.none_or]
  | cons e rest ih =>
    obtain ⟨unit, a⟩ := e
    obtain ⟨s₁, t₁, hadd, hs₁, hrest⟩ := install_cons_ok h
    obtain ⟨before, place, r⟩ := add_ok_replaced ht hl hs hadd
    have hmine := onDisk?_add_eq ht hl hs hadd (hnames (unit, a) List.mem_cons_self)
      (hread (unit, a) List.mem_cons_self) u
    have hreverse : (adoptedEntries sources minified ((unit, a) :: rest)).reverse =
        (adoptedEntries sources minified rest).reverse ++
          [(unit, a.adopted unit sources minified)] := List.reverse_cons
    rw [ih r.wellFormed (hs₁.trans hs) hrest (fun e he => hnames e (List.mem_cons_of_mem _ he))
      (fun e he => hread e (List.mem_cons_of_mem _ he)), hmine, hreverse, List.lookup_append,
      Option.or_assoc, NameMap.lookup_cons_ite]
    congr 1
    show (if u = unit then _ else _) = Option.or (if u = unit then _ else _) _
    split
    · rfl
    · rfl

theorem install_tidy (ht : t.WellFormed) (hl : ∀ n ∈ l, IsFileName n)
    (hs : s.directory = some (.absolute l))
    (h : s.install sources minified t entries = (.ok (), s', t'))
    (hnames : ∀ e ∈ entries, IsUnitName e.1)
    (hread : ∀ e ∈ entries, (e.2.adopted e.1 sources minified).ReadsBack) (htidy : Tidy t l) :
    Tidy t' l := by
  induction entries generalizing s t with
  | nil =>
    cases h
    exact htidy
  | cons e rest ih =>
    obtain ⟨unit, a⟩ := e
    obtain ⟨s₁, t₁, hadd, hs₁, hrest⟩ := install_cons_ok h
    obtain ⟨before, place, r⟩ := add_ok_replaced ht hl hs hadd
    have hfirst := add_tidy ht hl hs hadd (hnames (unit, a) List.mem_cons_self)
      (hread (unit, a) List.mem_cons_self) htidy
    exact ih r.wellFormed (hs₁.trans hs) hrest (fun e he => hnames e (List.mem_cons_of_mem _ he))
      (fun e he => hread e (List.mem_cons_of_mem _ he)) hfirst

end Install

end Store

theorem Artifact.ReadsBack.adopted {a : Artifact} (h : a.ReadsBack) (u : String) (sources : SourceSet)
    (minified : Bool) : (a.adopted u sources minified).ReadsBack := by
  rw [readsBack_iff] at h ⊢
  exact h

end ContractBuild
