import ContractBuild.Proofs.Healing

/-! Loading into a store that is in use. A load adds what it keeps to the entries and takes nothing out
of memory; so it agrees with the disk afterwards as long as it discards the file of no entry. -/

namespace ContractBuild.Store

open FileTree ContractBuild.Path

/-- What happens to a store and its tree: operations, readings, and changes that others make. -/
inductive Event where
  | operation (o : Operation)
  | load (root : Path)
  | inspect (root : Path)
  | edit (t : FileTree)

def after (s : Store) (t : FileTree) : Event → Store × FileTree
  | .operation o => (s.apply t o).2
  | .load root => (s.load root t).2
  | .inspect root => ((s.inspect root t).2, t)
  | .edit t' => (s, t')

def Along (P : Store → FileTree → Event → Prop) (s : Store) (t : FileTree) : List Event → Prop
  | [] => True
  | e :: rest => P s t e ∧ Along P (s.after t e).1 (s.after t e).2 rest

structure Untouched (d : Path) (t t' : FileTree) : Prop where
  wellFormed : t'.WellFormed
  directory : ∀ l, t.find d = .ok (l, .directory) → t'.find d = .ok (l, .directory)
  entry : ∀ l name, t.find d = .ok (l, .directory) → t'.node? (l ++ [name]) = t.node? (l ++ [name])

/-- Units that are added have proper names, and only the store changes its directory. -/
def Allowed (d : Path) (_ : Store) (t : FileTree) : Event → Prop
  | .operation (.add a) => IsUnitName a.name
  | .edit t' => Untouched d t t'
  | _ => True

/-- A load discards no file of a unit that is in memory when it begins. -/
def Spares (d : Path) (s : Store) (t : FileTree) : Event → Prop
  | .load root => ∀ u, s.contains u = true → d.joinText (fileName u) ∉ (s.load root t).1.discarded
  | _ => True

/-- After a load no unit in memory is one whose file it has discarded, and every entry is what the
file of its unit holds. -/
def Agrees (d : Path) (s : Store) (t : FileTree) : Event → Prop
  | .load root =>
    (∀ u, (s.load root t).2.1.contains u = true →
      d.joinText (fileName u) ∉ (s.load root t).1.discarded) ∧
    ∀ u a, (s.load root t).2.1.get? u = some a →
      artifactIn? (s.load root t).2.2 d (fileName u) = some a
  | _ => True

structure Backed (d : Path) (s : Store) (t : FileTree) : Prop where
  directory : s.directory = some d
  wellFormed : t.WellFormed
  file : ∀ u, s.contains u = true → fileName u ∈ artifactFiles t d

section Files

variable {t t' : FileTree} {d : Path} {l : Location} {name : String}

theorem mem_artifactFiles_of_kept (hmem : name ∈ artifactFiles t d)
    (hkept : ∀ l, t.find d = .ok (l, .directory) →
      t'.find d = .ok (l, .directory) ∧ ∃ node, t'.node? (l ++ [name]) = some node) :
    name ∈ artifactFiles t' d := by
  obtain ⟨hlist, hext⟩ := List.mem_filter.1 hmem
  obtain ⟨l, hd⟩ := exists_find_of_mem_list hlist
  obtain ⟨hd', hnode⟩ := hkept l hd
  exact List.mem_filter.2 ⟨(mem_list_iff hd').2 hnode, hext⟩

theorem sweep_trimmed {entries : NameMap Artifact} {removed : NameSet} {names : List String}
    (ht : t.WellFormed) (hd : t.find d = .ok (l, .directory)) (hnames : ∀ n ∈ names, IsFileName n) :
    Trimmed l (withoutEntry entries names) t (sweep entries d removed t names).2 := by
  induction names generalizing removed t with
  | nil => exact .refl ht
  | cons name rest ih =>
    have hrest := fun n hn => hnames n (List.mem_cons_of_mem name hn)
    rw [sweep]
    split
    · rename_i hentry
      rw [withoutEntry, List.filter_cons_of_neg (by rw [hentry]; decide)]
      exact ih ht hd hrest
    · rename_i hno
      rw [Bool.not_eq_true] at hno
      rw [withoutEntry, List.filter_cons_of_pos (by rw [hno]; decide)]
      dsimp only
      cases hremoved : t.removeFile (d.joinText name) with
      | error e => exact .refl ht
      | ok t₁ =>
        have hleft : t₁ = t.without [d.joinText name] := by
          rw [← removeFile_getD, hremoved]
          rfl
        have hone : Trimmed l [name] t t₁ := by
          rw [hleft]
          exact without_trimmed ht hd (List.forall_mem_singleton.2 (hnames name List.mem_cons_self))
        exact hone.trans (ih hone.wellFormed (find_of_trimmed hone hd) hrest)

theorem exists_place (hne : d.text ≠ "") {u : String} (hu : IsUnitName u) {content : List UInt8}
    {before : FileTree} {place : Location}
    (r : Replaced t (d.joinText (fileName u)) content before place t') :
    ∃ l, t'.find d = .ok (l, .directory) ∧ Nameable d (fileName u) ∧ IsFileName (fileName u) ∧
      place = l ++ [fileName u] ∧ t'.node? (l ++ [fileName u]) = some (.file content) ∧
      fileName u ∈ artifactFiles t' d := by
  obtain ⟨hnameable, hfile, l, hl, rfl⟩ := (locate_joinText_iff hne (isStep_fileName _).1
    (isStep_fileName _).2 (fileName_noSlash.2 hu.noSlash)).1 r.locate_place
  have hl' := find_directory_of_keepsDirectories r.keepsDirectories_before hl
  have hnode : t'.node? (l ++ [fileName u]) = some (.file content) := by
    rw [r.node?_eq, if_pos rfl]
  refine ⟨l, hl', hnameable, hfile, rfl, hnode, List.mem_filter.2 ⟨(mem_list_iff hl').2 ⟨_, hnode⟩, ?_⟩⟩
  rw [extensionOf?_fileName hu.ne_empty]
  exact beq_self_eq_true _

end Files

namespace Backed

variable {s s' : Store} {t t' : FileTree} {d root : Path} {l : Location}

theorem start (ht : t.WellFormed) : Backed d (persistent d) t :=
  ⟨rfl, ht, fun _ hu => by cases hu⟩

theorem forget (h : Backed d s t) (keep : String → Artifact → Bool) :
    Backed d { s with entries := s.entries.filter keep } t := by
  refine ⟨h.directory, h.wellFormed, fun u hu => ?_⟩
  obtain ⟨a, ha⟩ := NameMap.contains_iff.1 hu
  rw [NameMap.get?_filter] at ha
  exact h.file u (NameMap.contains_iff.2 ⟨a, (Option.filter_eq_some_iff.1 ha).1⟩)

theorem kept (h : Backed d s t) (ht : t'.WellFormed)
    (hkept : ∀ l, t.find d = .ok (l, .directory) → t'.find d = .ok (l, .directory) ∧
      ∀ u node, s.contains u = true → t.node? (l ++ [fileName u]) = some node →
        ∃ node', t'.node? (l ++ [fileName u]) = some node') : Backed d s t' := by
  refine ⟨h.directory, ht, fun u hu => ?_⟩
  refine mem_artifactFiles_of_kept (h.file u hu) fun l hd => ?_
  obtain ⟨node, hnode⟩ := (mem_list_iff hd).1 (List.mem_filter.1 (h.file u hu)).1
  obtain ⟨hd', hnodes⟩ := hkept l hd
  exact ⟨hd', hnodes u node hu hnode⟩

theorem trimmed {names : List String} (h : Backed d s t) (hd : t.find d = .ok (l, .directory))
    (htrim : Trimmed l names t t') (hout : ∀ u, s.contains u = true → fileName u ∉ names) :
    Backed d s t' := by
  refine h.kept htrim.wellFormed fun k hk => ?_
  cases hd.symm.trans hk
  refine ⟨find_of_trimmed htrim hd, fun u node hu hnode => ⟨node, ?_⟩⟩
  rw [htrim.node?_of_not_mem (hout u hu), hnode]

theorem add (h : Backed d s t) (hd : d.Plain) (hne : d.text ≠ "") {a : Artifact}
    (hname : IsUnitName a.name) {result : Except StoreError Unit}
    (hadd : s.add a t = (result, s', t')) : Backed d s' t' := by
  cases result with
  | error e =>
    have hext := add_extends h.wellFormed hd h.directory hadd
    rw [add_error hadd]
    exact h.kept hext.wellFormed fun l hl =>
      ⟨find_directory_of_keepsDirectories hext.keepsDirectories hl,
        fun u node _ hnode => ⟨node, hext.kept _ _ hnode⟩⟩
  | ok =>
    obtain ⟨before, place, r⟩ := add_replaced h.wellFormed hd h.directory hadd
    have hold : Backed d s t' := h.kept r.wellFormed fun l hl =>
      ⟨find_directory_of_keepsDirectories r.keepsDirectories hl, fun u node _ hnode => r.kept hnode⟩
    obtain ⟨-, -, -, -, -, -, hmine⟩ := exists_place hne hname r
    rw [add_ok hadd]
    refine ⟨h.directory, r.wellFormed, fun u hu => ?_⟩
    obtain ⟨b, hb⟩ := NameMap.contains_iff.1 hu
    rw [NameMap.get?_insert] at hb
    split at hb
    · rename_i he
      rw [he]
      exact hmine
    · exact hold.file u (NameMap.contains_iff.2 ⟨b, hb⟩)

theorem collect (h : Backed d s t) (live : NameSet) :
    Backed d (s.collect live t).2.1 (s.collect live t).2.2 := by
  have hkept := h.forget fun name _ => live.contains name
  rw [Store.collect, h.directory]
  rw [h.directory] at hkept
  dsimp only
  by_cases hdir : ∃ l, t.find d = .ok (l, .directory)
  · obtain ⟨l, hd⟩ := hdir
    have hnames : ∀ n ∈ artifactFiles t d, IsFileName n :=
      fun n hn => (isFileName_of_mem h.wellFormed hn).1
    refine hkept.trimmed hd (sweep_trimmed h.wellFormed hd hnames) fun u hu hmem => ?_
    obtain ⟨hfile, hgone⟩ := List.mem_filter.1 hmem
    have hext := (isFileName_of_mem h.wellFormed hfile).2.1
    rw [← (fileName_eq_iff hext).1 rfl, Bool.not_eq_true'] at hgone
    rw [Store.contains, hgone] at hu
    cases hu
  · have hnone : artifactFiles t d = [] := by
      refine List.eq_nil_iff_forall_not_mem.2 fun name hname => hdir ?_
      exact (isFileName_of_mem h.wellFormed hname).2.2
    rw [hnone]
    exact hkept

theorem file_of_entry {heal : Bool} {kept dropped : List String} {r : Reading} (h : Backed d s t)
    (hr : Underway heal root d t s.entries (files t d) kept dropped r) {u : String} {a : Artifact}
    (ha : r.entries.get? u = some a) : (fileName u ∈ kept ∧ artifactIn? t d (fileName u) = some a) ∨
      (s.contains u = true ∧ fileName u ∈ dropped) := by
  rw [hr.entries] at ha
  by_cases hkept : fileName u ∈ kept
  · obtain ⟨b, hb, -⟩ := hr.valid _ hkept
    rw [if_pos hkept, hb, Option.some_or] at ha
    exact Or.inl ⟨hkept, hb.trans ha⟩
  · rw [if_neg hkept, Option.none_or] at ha
    have hentry : s.contains u = true := NameMap.contains_iff.2 ⟨a, ha⟩
    have hfile := hr.split.mem_iff.1 (mem_files.2 (h.file u hentry))
    exact Or.inr ⟨hentry, (List.mem_append.1 hfile).resolve_left hkept⟩

theorem inspect (h : Backed d s t) (root : Path) : Backed d (s.inspect root t).2 t := by
  obtain ⟨kept, dropped, hr⟩ := read_underway false root h.wellFormed h.directory
  refine ⟨h.directory, h.wellFormed, fun u hu => ?_⟩
  obtain ⟨a, ha⟩ := NameMap.contains_iff.1 hu
  rcases h.file_of_entry hr ha with ⟨hkept, -⟩ | ⟨hentry, -⟩
  · exact mem_files.1 (hr.kept_sublist.subset hkept)
  · exact h.file u hentry

theorem load_entry (h : Backed d s t) (hspares : Spares d s t (.load root)) {u : String} {a : Artifact}
    (ha : (s.load root t).2.1.get? u = some a) :
    d.joinText (fileName u) ∉ (s.load root t).1.discarded ∧
      fileName u ∈ artifactFiles (s.load root t).2.2 d ∧
      artifactIn? (s.load root t).2.2 d (fileName u) = some a := by
  obtain ⟨kept, dropped, hr⟩ := read_underway true root h.wellFormed h.directory
  have hnames := isFileName_of_mem_files (d := d) h.wellFormed
  rcases h.file_of_entry hr ha with ⟨hkept, hin⟩ | ⟨hentry, hdropped⟩
  · have hfile := mem_files.1 (hr.kept_sublist.subset hkept)
    obtain ⟨hname, -, l, hd⟩ := isFileName_of_mem h.wellFormed hfile
    have htrim := hr.trimmed h.wellFormed hd hnames
    have hstays := hr.not_mem_dropped (NameSet.nodup_names _) hkept
    have hnode := htrim.node?_of_not_mem hstays
    refine ⟨fun hmem => hstays ((hr.mem_discarded_iff hnames hname).1 hmem), ?_, ?_⟩
    · obtain ⟨node, hthere⟩ := (mem_list_iff hd).1 (List.mem_filter.1 hfile).1
      exact (mem_artifactFiles_of_trimmed htrim hd).2 ⟨hfile, node, hnode.trans hthere⟩
    · exact (artifactIn?_congr hd (find_of_trimmed htrim hd) hname hnode).trans hin
  · have hname := (isFileName_of_mem h.wellFormed (h.file u hentry)).1
    exact absurd ((hr.mem_discarded_iff hnames hname).2 hdropped) (hspares u hentry)

theorem spares_load_iff (h : Backed d s t) (hapart : SourcesApart root d t) :
    Spares d s t (.load root) ↔ ∀ u, s.contains u = true → ∃ a,
      artifactIn? t d (fileName u) = some a ∧ t.pathExists (root.joinText a.sourcePath) = true := by
  have hr := read_of_apart true h.wellFormed (fun _ => hapart) h.directory
  refine forall₂_congr fun u hu => ?_
  have hname := (isFileName_of_mem h.wellFormed (h.file u hu)).1
  have hfile := mem_files.2 (h.file u hu)
  rw [report_load, hr.mem_discarded_iff (isFileName_of_mem_files h.wellFormed) hname,
    mem_invalidFiles, mem_validFiles, and_iff_right hfile, and_iff_right hfile, not_not]

theorem load (h : Backed d s t) (hspares : Spares d s t (.load root)) :
    Backed d (s.load root t).2.1 (s.load root t).2.2 := by
  refine ⟨h.directory, ?_, fun u hu => ?_⟩
  · obtain ⟨kept, dropped, hr⟩ := read_underway true root h.wellFormed h.directory
    show (read true root s t).tree.WellFormed
    rw [hr.tree, if_pos rfl]
    exact h.wellFormed.without _
  · obtain ⟨a, ha⟩ := NameMap.contains_iff.1 hu
    exact (h.load_entry hspares ha).2.1

theorem after (h : Backed d s t) (hd : d.Plain) (hne : d.text ≠ "") {e : Event}
    (hallowed : Allowed d s t e) (hspares : Spares d s t e) :
    Backed d (s.after t e).1 (s.after t e).2 := by
  cases e with
  | operation o =>
    cases o with
    | add a =>
      rcases hadd : s.add a t with ⟨result, s', t'⟩
      have hafter := h.add hd hne hallowed hadd
      rw [Store.after, Store.apply, hadd]
      exact hafter
    | remove unit => exact h.forget _
    | evict units => exact h.forget _
    | collect live =>
      have hafter := h.collect live
      rw [Store.after, Store.apply]
      exact hafter
  | load root => exact h.load hspares
  | inspect root => exact h.inspect root
  | edit t' =>
    have huntouched : Untouched d t t' := hallowed
    refine h.kept huntouched.wellFormed fun l hl => ⟨huntouched.directory l hl, ?_⟩
    intro u node _ hnode
    exact ⟨node, (huntouched.entry l _ hl).trans hnode⟩

theorem agrees_iff (h : Backed d s t) {e : Event} : Agrees d s t e ↔ Spares d s t e := by
  cases e with
  | operation o => exact Iff.rfl
  | inspect root => exact Iff.rfl
  | edit t' => exact Iff.rfl
  | load root =>
    constructor
    · rintro ⟨hout, -⟩ u hu
      refine hout u ?_
      obtain ⟨kept, dropped, hr⟩ := read_underway true root h.wellFormed h.directory
      obtain ⟨a, ha⟩ := NameMap.contains_iff.1 hu
      show ((read true root s t).entries.get? u).isSome = true
      rw [hr.entries, ha, Option.isSome_or, Option.isSome_some, Bool.or_true]
    · intro hspares
      refine ⟨fun u hu => ?_, fun u a ha => (h.load_entry hspares ha).2.2⟩
      obtain ⟨a, ha⟩ := NameMap.contains_iff.1 hu
      exact (h.load_entry hspares ha).1

theorem run (h : Backed d s t) (hd : d.Plain) (hne : d.text ≠ "") {events : List Event}
    (hallowed : Along (Allowed d) s t events) :
    Along (Agrees d) s t events ↔ Along (Spares d) s t events := by
  induction events generalizing s t with
  | nil => exact Iff.rfl
  | cons e rest ih =>
    rw [Along, Along, h.agrees_iff]
    refine and_congr_right fun hspares => ?_
    exact ih (h.after hd hne hallowed.1 hspares) hallowed.2

end Backed

/-- A load takes nothing out of memory, whatever it discards. -/
theorem loads_agree_iff {d : Path} {t : FileTree} {events : List Event} (ht : t.WellFormed)
    (hd : d.Plain) (hne : d.text ≠ "") (hallowed : Along (Allowed d) (persistent d) t events) :
    Along (Agrees d) (persistent d) t events ↔ Along (Spares d) (persistent d) t events :=
  (Backed.start ht).run hd hne hallowed

namespace SampleReload

open Project (artifactsAt)
open Project.Sample (root start sourceAt)

def place : Location := artifactsAt root

def directory : Path := .absolute place

def artifact : Artifact := Sample.artifact "D"

def store : Store := ((persistent directory).add artifact start).2.1

def built : FileTree := ((persistent directory).add artifact start).2.2

def lacking (name : String) : FileTree := built.remove (· == sourceAt name)

def events (name : String) : List Event :=
  [.operation (.add artifact), .edit (lacking name), .load (.absolute root)]

theorem find_built : built.find directory = .ok (place, .directory) := by decide

theorem built_wellFormed : built.WellFormed := ⟨by decide, by decide, by decide⟩

theorem untouched {name : String} (hname : built.node? (sourceAt name) ≠ some .directory) :
    Untouched directory built (lacking name) := by
  have hnode := node?_removeAt hname
  have hentry : ∀ other, (lacking name).node? (place ++ [other]) = built.node? (place ++ [other]) := by
    intro other
    rw [lacking, hnode, if_neg]
    intro h
    have hlength := congrArg List.length h
    cases hlength
  refine ⟨built_wellFormed.removeAt hname,
    fun l => find_directory_of_keepsDirectories (keepsDirectories_removeAt hname),
    fun l other hl => ?_⟩
  cases find_built.symm.trans hl
  exact hentry other

theorem allowed {name : String} (hname : built.node? (sourceAt name) ≠ some .directory) :
    Along (Allowed directory) (persistent directory) start (events name) :=
  ⟨⟨by decide, by decide⟩, untouched hname, trivial, trivial⟩

theorem mem_files_lacking {name file : String} (hname : name ∈ ["D.sol", "M.sol"]) :
    file ∈ files (lacking name) directory ↔ file = "D.json" := by
  have hall : ∀ n ∈ ["D.sol", "M.sol"], files (lacking n) directory = ["D.json"] := by decide
  rw [hall name hname, List.mem_singleton]

theorem artifactIn?_lacking {name : String} (hname : name ∈ ["D.sol", "M.sol"]) :
    artifactIn? (lacking name) directory "D.json" = some artifact := by
  have hsource : ∀ n ∈ ["D.sol", "M.sol"], built.node? (sourceAt n) ≠ some .directory := by decide
  have huntouched := untouched (hsource name hname)
  have hnode : built.node? (place ++ ["D.json"]) =
      some (.file (Text.bytes artifact.canonicalText)) := rfl
  rw [artifactIn?_of_canonicalText (huntouched.directory _ find_built) (by decide) (by decide)
    (Sample.artifact_readsBack "D") ((huntouched.entry _ _ find_built).trans hnode),
    if_pos (by decide), artifact]

theorem added : (persistent directory).add artifact start = (.ok (), store, built) :=
  Prod.ext (by decide) rfl

theorem plain_directory : directory.Plain := plain_absolute Project.Sample.names_artifacts

theorem backed {name : String} (hname : name ∈ ["D.sol", "M.sol"]) :
    Backed directory store (lacking name) := by
  have hsource : ∀ n ∈ ["D.sol", "M.sol"], built.node? (sourceAt n) ≠ some .directory := by decide
  have hadded : Backed directory store built :=
    (Backed.start Project.Sample.start_wellFormed).add plain_directory (by decide)
      ⟨by decide, by decide⟩ added
  have huntouched : Allowed directory store built (.edit (lacking name)) :=
    untouched (hsource name hname)
  exact hadded.after plain_directory (by decide) huntouched trivial

theorem contains_store {u : String} : store.contains u = true ↔ u = "D" := by
  rw [add_ok added, contains, NameMap.contains_iff]
  simp only [NameMap.get?_insert]
  constructor
  · rintro ⟨a, ha⟩
    split at ha
    · assumption
    · cases ha
  · rintro rfl
    exact ⟨artifact, if_pos (by decide)⟩

theorem apart {name : String} (hname : name ∈ ["D.sol", "M.sol"]) :
    SourcesApart (.absolute root) directory (lacking name) := by
  have hlocated : ∀ n ∈ ["D.sol", "M.sol"], (lacking n).locate
      ((Path.absolute root).joinText artifact.sourcePath) = .ok (sourceAt "D.sol") := by decide
  have hfound : ∀ n ∈ ["D.sol", "M.sol"],
      (lacking n).find directory = .ok (place, .directory) := by decide
  intro file hmem a ha l other hd hlocate
  rw [← mem_files, mem_files_lacking hname] at hmem
  rw [hmem, artifactIn?_lacking hname] at ha
  cases ha
  cases (hfound name hname).symm.trans hd
  have hlength := congrArg List.length (Except.ok.inj ((hlocated name hname).symm.trans hlocate))
  cases hlength

theorem spares_iff {name : String} (hname : name ∈ ["D.sol", "M.sol"]) :
    Spares directory store (lacking name) (.load (.absolute root)) ↔
      (lacking name).pathExists ((Path.absolute root).joinText artifact.sourcePath) = true := by
  rw [(backed hname).spares_load_iff (apart hname)]
  simp only [contains_store, forall_eq]
  rw [show fileName "D" = "D.json" from rfl, artifactIn?_lacking hname]
  simp only [Option.some.injEq, exists_eq_left']

end SampleReload

theorem loads_agree_after_other_source :
    Along (Agrees SampleReload.directory) (persistent SampleReload.directory) Project.Sample.start
      (SampleReload.events "M.sol") := by
  have hthere : (SampleReload.lacking "M.sol").pathExists
      ((Path.absolute Project.Sample.root).joinText SampleReload.artifact.sourcePath) = true := by
    decide +kernel
  exact (loads_agree_iff Project.Sample.start_wellFormed SampleReload.plain_directory (by decide)
    (SampleReload.allowed (by decide))).2
      ⟨trivial, trivial, (SampleReload.spares_iff (by decide)).2 hthere, trivial⟩

theorem load_keeps_discarded_unit :
    Project.Sample.start.WellFormed ∧
    Along (Allowed SampleReload.directory) (persistent SampleReload.directory) Project.Sample.start
      (SampleReload.events "D.sol") ∧
    ¬ Along (Agrees SampleReload.directory) (persistent SampleReload.directory) Project.Sample.start
      (SampleReload.events "D.sol") := by
  refine ⟨Project.Sample.start_wellFormed, SampleReload.allowed (by decide), ?_⟩
  rintro ⟨-, -, hagrees, -⟩
  have hname : "D.sol" ∈ ["D.sol", "M.sol"] := by decide
  have hgone : (SampleReload.lacking "D.sol").pathExists
      ((Path.absolute Project.Sample.root).joinText SampleReload.artifact.sourcePath) = false := by
    decide +kernel
  have hthere := (SampleReload.spares_iff hname).1 ((SampleReload.backed hname).agrees_iff.1 hagrees)
  rw [hgone] at hthere
  cases hthere

end ContractBuild.Store
