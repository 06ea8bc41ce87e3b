import ContractBuild.Dependents
import ContractBuild.Proofs.Agreement

/-! The two copies of an artifact, in memory and on disk. The operations on a store change them at
different times, and what a store and its directory come to is described by two maps. -/

namespace ContractBuild

open FileTree ContractBuild.Path

namespace Store

inductive Operation where
  | add (a : Artifact)
  | remove (unit : String)
  | evict (units : NameSet)
  | collect (live : NameSet)

def apply (s : Store) (t : FileTree) :
    Operation → Except StoreError (List String) × Store × FileTree
  | .add a =>
    let (result, s, t) := s.add a t
    (result.map fun _ => [], s, t)
  | .remove unit => (.ok [], s.remove unit, t)
  | .evict units =>
    let (names, s) := s.evict units
    (.ok names, s, t)
  | .collect live =>
    let (result, s, t) := s.collect live t
    (result.map NameSet.names, s, t)

def run (s : Store) (t : FileTree) :
    List Operation → Except StoreError (List (List String)) × Store × FileTree
  | [] => (.ok [], s, t)
  | o :: rest =>
    match s.apply t o with
    | (.error e, s, t) => (.error e, s, t)
    | (.ok answer, s, t) =>
      let (result, s, t) := s.run t rest
      (result.map (answer :: ·), s, t)

end Store

/-- What is in memory, and what is on disk. -/
structure Copies where
  memory : NameMap Artifact := {}
  disk : NameMap Artifact := {}

namespace Copies

def lost (before after : NameMap Artifact) : NameSet := before.nameSet.filter (!after.contains ·)

def apply (c : Copies) : Store.Operation → List String × Copies
  | .add a => ([], ⟨c.memory.insert a.name a, c.disk.insert a.name a⟩)
  | .remove unit => ([], { c with memory := c.memory.erase unit })
  | .evict units =>
    (units.names.filter c.memory.contains,
      { c with memory := c.memory.filter fun unit _ => !units.contains unit })
  | .collect live =>
    let memory := c.memory.filter fun unit _ => live.contains unit
    let disk := c.disk.filter fun unit _ => memory.contains unit
    (((lost c.memory memory).union (lost c.disk disk)).names, ⟨memory, disk⟩)

def run (c : Copies) : List Store.Operation → List (List String) × Copies
  | [] => ([], c)
  | o :: rest =>
    let (answer, c) := c.apply o
    let (answers, c) := c.run rest
    (answer :: answers, c)

theorem mem_lost {before after : NameMap Artifact} {u : String} :
    u ∈ lost before after ↔ before.contains u = true ∧ after.contains u = false := by
  rw [lost, NameSet.mem_filter, NameMap.mem_nameSet, Bool.not_eq_true']

theorem mem_lost_filter {m : NameMap Artifact} {keep : String → Bool} {u : String} :
    u ∈ lost m (m.filter fun unit _ => keep unit) ↔ m.contains u = true ∧ keep u = false := by
  rw [mem_lost, NameMap.contains_eq_false_iff, NameMap.get?_filter, NameMap.contains_iff]
  refine and_congr_right ?_
  rintro ⟨a, ha⟩
  rw [ha, Option.filter_some]
  cases keep u with
  | true => exact iff_of_false nofun nofun
  | false => exact iff_of_true rfl rfl

theorem answers_ascending (c : Copies) (operations : List Store.Operation) :
    ∀ answer ∈ (c.run operations).1, answer.Pairwise (· < ·) := by
  induction operations generalizing c with
  | nil => exact List.forall_mem_nil _
  | cons o rest ih =>
    refine List.forall_mem_cons.2 ⟨?_, ih _⟩
    cases o with
    | add a => exact .nil
    | remove unit => exact .nil
    | evict units => exact units.ascending.filter _
    | collect live => exact NameSet.ascending _

theorem added_of_disk {operations : List Store.Operation} {c : Copies} {u : String} {a : Artifact}
    (h : (c.run operations).2.disk.get? u = some a) :
    c.disk.get? u = some a ∨ .add a ∈ operations := by
  induction operations generalizing c with
  | nil => exact Or.inl h
  | cons o rest ih =>
    have hstep : (c.apply o).2.disk.get? u = some a → c.disk.get? u = some a ∨ o = .add a := by
      intro hdisk
      cases o with
      | add b =>
        rw [apply, NameMap.get?_insert] at hdisk
        split at hdisk
        · cases hdisk
          exact Or.inr rfl
        · exact Or.inl hdisk
      | remove unit => exact Or.inl hdisk
      | evict units => exact Or.inl hdisk
      | collect live =>
        rw [apply, NameMap.get?_filter] at hdisk
        exact Or.inl (Option.filter_eq_some_iff.1 hdisk).1
    rcases ih (c := (c.apply o).2) h with hdisk | hadded
    · rcases hstep hdisk with hdisk | rfl
      · exact Or.inl hdisk
      · exact Or.inr List.mem_cons_self
    · exact Or.inr (List.mem_cons_of_mem o hadded)

end Copies

namespace Store

theorem run_cons_ok {s s' : Store} {t t' : FileTree} {o : Operation} {rest : List Operation}
    {answers : List (List String)} (h : s.run t (o :: rest) = (.ok answers, s', t')) :
    ∃ answer s₁ t₁ more, s.apply t o = (.ok answer, s₁, t₁) ∧
      s₁.run t₁ rest = (.ok more, s', t') ∧ answers = answer :: more := by
  rw [run] at h
  split at h
  · cases h
  · rename_i answer s₁ t₁ happly
    rcases hrest : s₁.run t₁ rest with ⟨e | more, s₂, t₂⟩
    · rw [hrest] at h
      cases h
    · rw [hrest] at h
      cases h
      exact ⟨answer, s₁, t₁, more, happly, hrest, rfl⟩

section Sweep

variable {entries : NameMap Artifact} {l : Location} {removed removed' : NameSet} {t t' : FileTree}
  {names : List String}

def withoutEntry (entries : NameMap Artifact) (names : List String) : List String :=
  names.filter fun name => !entries.contains (stemOf name)

structure Swept (l : Location) (gone : List String) (removed : NameSet) (t : FileTree)
    (removed' : NameSet) (t' : FileTree) : Prop where
  removed_eq : removed' = (gone.map stemOf).foldl .insert removed
  wellFormed : t'.WellFormed
  node?_eq : ∀ k, t'.node? k = if k ∈ gone.map (l ++ [·]) then none else t.node? k

theorem sweep_ok (ht : t.WellFormed) (hl : ∀ n ∈ l, IsFileName n)
    (hnames : ∀ n ∈ names, IsFileName n)
    (h : sweep entries (.absolute l) removed t names = (.ok removed', t')) :
    Swept l (withoutEntry entries names) removed t removed' t' := by
  induction names generalizing removed t with
  | nil =>
    cases h
    exact ⟨rfl, ht, fun _ => rfl⟩
  | cons name rest ih =>
    have hrest := fun n hn => hnames n (List.mem_cons_of_mem name hn)
    rw [sweep] at h
    split at h
    · rename_i hentry
      rw [withoutEntry, List.filter_cons_of_neg (by rw [hentry]; decide)]
      exact ih ht hrest h
    · rename_i hno
      rw [Bool.not_eq_true] at hno
      rw [withoutEntry, List.filter_cons_of_pos (by rw [hno]; decide)]
      dsimp only at h
      split at h
      · cases h
      · rename_i t₁ hremoved
        obtain ⟨-, ⟨content, hnode⟩, rfl⟩ :=
          removeFile_absolute ht hl (hnames name List.mem_cons_self) hremoved
        have hfile : t.node? (l ++ [name]) ≠ some .directory := by
          rw [hnode]
          exact nofun
        obtain ⟨hanswer, ht', hleft⟩ := ih (ht.removeAt hfile) hrest h
        refine ⟨hanswer, ht', fun k => ?_⟩
        rw [hleft, node?_removeAt hfile, List.map_cons]
        -- What has gone with this file does not come back with the rest.
        by_cases hk : k = l ++ [name]
        · rw [if_pos hk, ite_self, if_pos (List.mem_cons.2 (Or.inl hk))]
        · rw [if_neg hk]
          exact (if_congr (List.mem_cons.trans (or_iff_right hk)) rfl rfl).symm

end Sweep

/-- A store and its directory, seen as two maps: the directory holds a file for every artifact on
disk, and nothing else. -/
structure Shows (s : Store) (l : Location) (t : FileTree) (c : Copies) : Prop where
  directory : s.directory = some (.absolute l)
  wellFormed : t.WellFormed
  entries : s.entries = c.memory
  onDisk?_eq : ∀ u, onDisk? t l u = c.disk.get? u
  file : ∀ name node, t.node? (l ++ [name]) = some node →
    ∃ u a, c.disk.get? u = some a ∧ name = fileName u ∧ node = .file (Text.bytes a.canonicalText)
  within : ∀ u a, c.memory.get? u = some a → c.disk.get? u = some a

namespace Shows

variable {s s' : Store} {l : Location} {t t' : FileTree} {c : Copies}

theorem node?_iff (h : s.Shows l t c) {name : String} {node : Node} :
    t.node? (l ++ [name]) = some node ↔ ∃ u a, c.disk.get? u = some a ∧ name = fileName u ∧
      node = .file (Text.bytes a.canonicalText) := by
  refine ⟨h.file name node, ?_⟩
  rintro ⟨u, a, ha, rfl, rfl⟩
  obtain ⟨content, hnode⟩ := node?_of_onDisk? ((h.onDisk?_eq u).trans ha)
  obtain ⟨v, b, hb, hname, hcontent⟩ := h.file _ _ hnode
  cases fileName_inj.1 hname
  cases ha.symm.trans hb
  rw [hnode, hcontent]

theorem ne_empty (h : s.Shows l t c) {u : String} (hu : c.disk.contains u = true) : u ≠ "" := by
  obtain ⟨a, ha⟩ := NameMap.contains_iff.1 hu
  exact ne_empty_of_onDisk? ((h.onDisk?_eq u).trans ha)

theorem name_eq (h : s.Shows l t c) {u : String} {a : Artifact} (ha : c.disk.get? u = some a) :
    a.name = u := name_of_onDisk? ((h.onDisk?_eq u).trans ha)

theorem start (ht : t.WellFormed) (hempty : ∀ name, t.node? (l ++ [name]) = none) :
    (persistent (.absolute l)).Shows l t {} := by
  refine ⟨rfl, ht, rfl, fun u => ?_, fun name node hnode => ?_, nofun⟩
  · rw [onDisk?, hempty]
    exact ite_self none
  · rw [hempty] at hnode
    cases hnode

theorem add (h : s.Shows l t c) (hl : ∀ n ∈ l, IsFileName n) {a : Artifact}
    (hname : IsUnitName a.name) (hread : a.ReadsBack) (hadd : s.add a t = (.ok (), s', t')) :
    s'.Shows l t' ⟨c.memory.insert a.name a, c.disk.insert a.name a⟩ := by
  obtain ⟨before, place, r⟩ := add_ok_replaced h.wellFormed hl h.directory hadd
  have hplace := (place_of_isUnitName hl hname r).1
  obtain rfl := add_ok hadd
  refine ⟨h.directory, r.wellFormed, congrArg (·.insert a.name a) h.entries, fun u => ?_,
    fun name node hnode => ?_, fun u b hb => ?_⟩
  · rw [onDisk?_add_eq h.wellFormed hl h.directory hadd hname hread, NameMap.get?_insert,
      h.onDisk?_eq]
  · by_cases hfile : name = fileName a.name
    · rw [r.node?_eq, hplace, hfile, if_pos rfl] at hnode
      cases hnode
      exact ⟨a.name, a, by rw [NameMap.get?_insert, if_pos rfl], hfile, rfl⟩
    · -- A file of another name stays, as the new one is neither it nor below it.
      have hprefix : ¬ l ++ [name] <+: l ++ [fileName a.name] := by
        rw [List.prefix_append_right_inj]
        exact fun hp => hfile (List.cons_prefix_cons.1 hp).1
      rw [node?_add h.wellFormed hl h.directory hadd hname hprefix] at hnode
      obtain ⟨u, b, hb, rfl, hcontent⟩ := h.file name node hnode
      refine ⟨u, b, ?_, rfl, hcontent⟩
      rw [NameMap.get?_insert, if_neg fun hu => hfile (congrArg fileName hu), hb]
  · rw [NameMap.get?_insert] at hb ⊢
    split at hb
    · rename_i hu
      rw [if_pos hu, hb]
    · rename_i hu
      rw [if_neg hu]
      exact h.within u b hb

theorem forget (h : s.Shows l t c) (keep : String → Artifact → Bool) :
    ({ s with entries := s.entries.filter keep } : Store).Shows l t
      { c with memory := c.memory.filter keep } := by
  refine ⟨h.directory, h.wellFormed, congrArg (·.filter keep) h.entries, h.onDisk?_eq, h.file,
    fun u a ha => ?_⟩
  rw [NameMap.get?_filter] at ha
  exact h.within u a (Option.filter_eq_some_iff.1 ha).1

theorem mem_withoutEntry (h : s.Shows l t c) (hl : ∀ n ∈ l, IsFileName n) {kept : NameMap Artifact}
    {name : String} : name ∈ withoutEntry kept (artifactFiles t (.absolute l)) ↔
      ∃ u, name = fileName u ∧ c.disk.contains u = true ∧ kept.contains u = false := by
  rw [withoutEntry, List.mem_filter, Bool.not_eq_true', mem_artifactFiles h.wellFormed hl]
  constructor
  · rintro ⟨⟨-, -, node, hthere⟩, hentry⟩
    obtain ⟨u, a, ha, rfl, -⟩ := h.file name node hthere
    have hu := NameMap.contains_iff.2 ⟨a, ha⟩
    rw [stemOf_fileName (h.ne_empty hu)] at hentry
    exact ⟨u, rfl, hu, hentry⟩
  · rintro ⟨u, rfl, hu, hentry⟩
    obtain ⟨a, ha⟩ := NameMap.contains_iff.1 hu
    have hne := h.ne_empty hu
    obtain ⟨-, hfits, content, -, hthere, -⟩ := onDisk?_eq_some_iff.1 ((h.onDisk?_eq u).trans ha)
    rw [stemOf_fileName hne]
    exact ⟨⟨extensionOf?_fileName hne, hfits.of_concat, _, hthere⟩, hentry⟩

theorem kept_of_stays (h : s.Shows l t c) (hl : ∀ n ∈ l, IsFileName n) {kept : NameMap Artifact}
    {u : String} {a : Artifact} (ha : c.disk.get? u = some a)
    (hstays : fileName u ∉ withoutEntry kept (artifactFiles t (.absolute l))) :
    kept.contains u = true := by
  rw [← Bool.not_eq_false]
  intro hout
  exact hstays ((h.mem_withoutEntry hl).2 ⟨u, rfl, NameMap.contains_iff.2 ⟨a, ha⟩, hout⟩)

theorem swept (h : s.Shows l t c) (hl : ∀ n ∈ l, IsFileName n) {kept : NameMap Artifact}
    {removed removed' : NameSet} (hwithin : ∀ u a, kept.get? u = some a → c.disk.get? u = some a)
    (hswept : Swept l (withoutEntry kept (artifactFiles t (.absolute l))) removed t removed' t') :
    ({ s with entries := kept } : Store).Shows l t'
      ⟨kept, c.disk.filter fun unit _ => kept.contains unit⟩ := by
  have hnode : ∀ name, t'.node? (l ++ [name]) =
      if name ∈ withoutEntry kept (artifactFiles t (.absolute l)) then none
      else t.node? (l ++ [name]) := by
    intro name
    rw [hswept.node?_eq]
    exact if_congr (by simp) rfl rfl
  have hdisk : ∀ u, (c.disk.filter fun unit _ => kept.contains unit).get? u =
      if kept.contains u = true then c.disk.get? u else none := by
    intro u
    rw [NameMap.get?_filter]
    cases hd : c.disk.get? u with
    | none => exact (ite_self none).symm
    | some a => rfl
  refine ⟨h.directory, hswept.wellFormed, rfl, fun u => ?_, fun name node hthere => ?_,
    fun u a ha => ?_⟩
  · rw [hdisk]
    by_cases hu : kept.contains u = true
    · -- The file of a unit that is kept has that unit's stem and no other, so it stays.
      rw [if_pos hu, ← h.onDisk?_eq]
      apply onDisk?_congr
      rw [hnode, if_neg]
      intro hgone
      obtain ⟨v, hname, -, hout⟩ := (h.mem_withoutEntry hl).1 hgone
      rw [← fileName_inj.1 hname, hu] at hout
      cases hout
    · rw [if_neg hu]
      apply Option.eq_none_iff_forall_ne_some.2
      intro a ha
      obtain ⟨content, hthere⟩ := node?_of_onDisk? ha
      rw [hnode] at hthere
      split at hthere
      · cases hthere
      · rename_i hstays
        obtain ⟨v, b, hb, hname, -⟩ := h.file _ _ hthere
        cases fileName_inj.1 hname
        exact hu (h.kept_of_stays hl hb hstays)
  · rw [hnode] at hthere
    split at hthere
    · cases hthere
    · rename_i hstays
      obtain ⟨u, a, ha, rfl, hcontent⟩ := h.file name node hthere
      refine ⟨u, a, ?_, rfl, hcontent⟩
      rw [hdisk, if_pos (h.kept_of_stays hl ha hstays), ha]
  · rw [hdisk, if_pos (NameMap.contains_iff.2 ⟨a, ha⟩)]
    exact hwithin u a ha

theorem collect (h : s.Shows l t c) (hl : ∀ n ∈ l, IsFileName n) {live removed : NameSet}
    (hcollect : s.collect live t = (.ok removed, s', t')) :
    s'.Shows l t' (c.apply (.collect live)).2 ∧ removed.names = (c.apply (.collect live)).1 := by
  have hwithin : ∀ u a, (c.memory.filter fun unit _ => live.contains unit).get? u = some a →
      c.disk.get? u = some a := (h.forget fun unit _ => live.contains unit).within
  rw [Store.collect, h.directory, h.entries] at hcollect
  dsimp only at hcollect
  rw [Copies.apply]
  dsimp only
  rcases hsweep : sweep (c.memory.filter fun unit _ => live.contains unit) (.absolute l)
    (c.memory.nameSet.filter (!live.contains ·)) t (artifactFiles t (.absolute l)) with ⟨result, t₁⟩
  rw [hsweep] at hcollect
  cases hcollect
  have hswept := sweep_ok h.wellFormed hl
    (fun n hn => (isFileName_of_mem h.wellFormed hn).1) hsweep
  have hshows := h.swept hl hwithin hswept
  rw [h.directory] at hshows
  refine ⟨hshows, congrArg NameSet.names (NameSet.ext_mem fun u => ?_)⟩
  rw [hswept.removed_eq, NameSet.mem_foldl_insert, NameSet.mem_union, Copies.mem_lost_filter,
    Copies.mem_lost_filter, NameSet.mem_filter, NameMap.mem_nameSet, Bool.not_eq_true', or_comm]
  refine or_congr Iff.rfl ?_
  rw [List.mem_map]
  constructor
  · rintro ⟨name, hgone, rfl⟩
    obtain ⟨u, rfl, hu, hout⟩ := (h.mem_withoutEntry hl).1 hgone
    rw [stemOf_fileName (h.ne_empty hu)]
    exact ⟨hu, hout⟩
  · rintro ⟨hu, hout⟩
    exact ⟨fileName u, (h.mem_withoutEntry hl).2 ⟨u, rfl, hu, hout⟩, stemOf_fileName (h.ne_empty hu)⟩

theorem apply (h : s.Shows l t c) (hl : ∀ n ∈ l, IsFileName n) {o : Operation} {answer : List String}
    (hadded : ∀ a, o = .add a → IsUnitName a.name ∧ a.ReadsBack)
    (happly : s.apply t o = (.ok answer, s', t')) :
    s'.Shows l t' (c.apply o).2 ∧ answer = (c.apply o).1 := by
  cases o with
  | add a =>
    obtain ⟨hname, hread⟩ := hadded a rfl
    rcases hadd : s.add a t with ⟨result | ⟨⟩, s₁, t₁⟩
    · rw [Store.apply, hadd] at happly
      cases happly
    · rw [Store.apply, hadd] at happly
      cases happly
      exact ⟨h.add hl hname hread hadd, rfl⟩
  | remove unit =>
    cases happly
    exact ⟨h.forget _, rfl⟩
  | evict units =>
    cases happly
    refine ⟨h.forget _, ?_⟩
    rw [Copies.apply, ← h.entries]
    rfl
  | collect live =>
    rcases hcollect : s.collect live t with ⟨result | removed, s₁, t₁⟩
    · rw [Store.apply, hcollect] at happly
      cases happly
    · rw [Store.apply, hcollect] at happly
      cases happly
      obtain ⟨hshows, hnames⟩ := h.collect hl hcollect
      exact ⟨hshows, hnames⟩

theorem run (h : s.Shows l t c) (hl : ∀ n ∈ l, IsFileName n) {operations : List Operation}
    {answers : List (List String)}
    (hadded : ∀ a, .add a ∈ operations → IsUnitName a.name ∧ a.ReadsBack)
    (hrun : s.run t operations = (.ok answers, s', t')) :
    s'.Shows l t' (c.run operations).2 ∧ answers = (c.run operations).1 := by
  induction operations generalizing s t c answers with
  | nil =>
    cases hrun
    exact ⟨h, rfl⟩
  | cons o rest ih =>
    obtain ⟨answer, s₁, t₁, more, happly, hrest, rfl⟩ := run_cons_ok hrun
    obtain ⟨hshows, rfl⟩ := h.apply hl (fun a ha => hadded a (ha ▸ List.mem_cons_self)) happly
    obtain ⟨hend, rfl⟩ := ih hshows (fun a ha => hadded a (List.mem_cons_of_mem o ha)) hrest
    exact ⟨hend, rfl⟩

end Shows

/-- Whatever is done with a store, two maps describe it, as long as no file operation fails. -/
theorem run_refines_copies {root : Path} {l : Location} {t t' : FileTree} {s : Store}
    {operations : List Operation} {answers : List (List String)} (ht : t.WellFormed)
    (hl : ∀ n ∈ l, IsFileName n) (hempty : ∀ name, t.node? (l ++ [name]) = none)
    (hadded : ∀ a, .add a ∈ operations → IsUnitName a.name ∧ a.ReadsBack)
    (hout : ∀ a, .add a ∈ operations →
      ∀ name, t'.locate (root.joinText a.sourcePath) ≠ .ok (l ++ [name]))
    (hrun : (persistent (.absolute l)).run t operations = (.ok answers, s, t')) :
    let copies := (({} : Copies).run operations).2
    answers = (({} : Copies).run operations).1 ∧
    (∀ answer ∈ answers, answer.Pairwise (· < ·)) ∧
    s.entries = copies.memory ∧
    (∀ name node, t'.node? (l ++ [name]) = some node ↔ ∃ u a, copies.disk.get? u = some a ∧
      name = fileName u ∧ node = .file (Text.bytes a.canonicalText)) ∧
    (∀ u a, copies.memory.get? u = some a → a.name = u ∧ copies.disk.get? u = some a) ∧
    ((persistent (.absolute l)).load root t').2.1.entries =
      copies.disk.filter fun _ a => t'.pathExists (root.joinText a.sourcePath) := by
  obtain ⟨h, rfl⟩ := (Shows.start ht hempty).run hl hadded hrun
  have houtside : Outside root l t' := by
    intro u a ha
    rw [h.onDisk?_eq] at ha
    rcases Copies.added_of_disk ha with hnone | hmem
    · cases hnone
    · exact hout a hmem
  refine ⟨rfl, Copies.answers_ascending _ _, h.entries, fun name node => h.node?_iff, fun u a ha => ?_,
    NameMap.ext_get? fun u => Option.ext fun a => ?_⟩
  · have hdisk := h.within u a ha
    exact ⟨h.name_eq hdisk, hdisk⟩
  · have hfound : ((persistent (.absolute l)).load root t').2.1.entries.get? u =
        onDisk? (healed root l t') l u := get?_found h.wellFormed hl u
    rw [hfound, onDisk?_healed_iff h.wellFormed hl houtside, h.onDisk?_eq, NameMap.get?_filter,
      Option.filter_eq_some_iff]

namespace Sample

open Project (artifactsAt)
open Project.Sample (root start)

def artifact (name : String) : Artifact where
  name := name
  fingerprint := ⟨List.replicate 16 0, rfl⟩
  compiler := ⟨"0.1.0", true, 200, none⟩
  dependencies := {}
  bytecode := "0x00"
  deployedBytecode := ""
  abi := .array []
  sourcePath := "contracts/" ++ name ++ ".sol"
  kind := .contract
  metadata := .null

theorem artifact_readsBack (name : String) : (artifact name).ReadsBack := by
  have hdepth : max (Json.array []).depth (max 1 Json.null.depth) < Json.maxDepth := by decide
  exact Artifact.readsBack_iff.2 ⟨hdepth, rfl, rfl⟩

def operations : List Operation :=
  [.add (artifact "D"), .add (artifact "M"), .remove "D", .collect (.ofList ["D", "M"]),
    .add (artifact "X$_1"), .evict (.ofList ["M", "X$_1"])]

def added : List String := ["D", "M", "X$_1"]

theorem mem_added {a : Artifact} (h : .add a ∈ operations) : ∃ name ∈ added, a = artifact name := by
  simp only [operations, List.mem_cons, Operation.add.injEq, reduceCtorEq, List.not_mem_nil,
    false_or, or_false] at h
  rcases h with rfl | rfl | rfl
  · exact ⟨"D", by decide, rfl⟩
  · exact ⟨"M", by decide, rfl⟩
  · exact ⟨"X$_1", by decide, rfl⟩

def left : Except StoreError (List (List String)) × Store × FileTree :=
  (persistent (.absolute (artifactsAt root))).run start operations

theorem left_result : left.1 = .ok [[], [], [], ["D"], [], ["M", "X$_1"]] ∧
    ∀ name ∈ added, left.2.2.locate ((Path.absolute root).joinText (artifact name).sourcePath) =
      .ok (root ++ ["contracts", name ++ ".sol"]) := by
  decide +kernel

theorem start_empty (name : String) : start.node? (artifactsAt root ++ [name]) = none := by
  have hchildren : start.children (artifactsAt root) = [] := by decide
  apply Option.eq_none_iff_forall_ne_some.2
  intro node hnode
  have hmem := mem_children.2 ⟨node, hnode⟩
  rw [hchildren] at hmem
  cases hmem

end Sample

theorem run_refines_copies_after_eviction :
    Sample.left.1 = .ok [[], [], [], ["D"], [], ["M", "X$_1"]] ∧
    Sample.left.2.1.entries = {} ∧
    Sample.left.2.2.node? (Project.artifactsAt Project.Sample.root ++ ["D.json"]) = none ∧
    ((persistent (.absolute (Project.artifactsAt Project.Sample.root))).load
      (.absolute Project.Sample.root) Sample.left.2.2).2.1.entries.names = ["M"] := by
  obtain ⟨hresult, hlocate⟩ := Sample.left_result
  have hadded : ∀ a, .add a ∈ Sample.operations → IsUnitName a.name ∧ a.ReadsBack := by
    intro a ha
    obtain ⟨name, hname, rfl⟩ := Sample.mem_added ha
    have hall : ∀ name ∈ Sample.added, name ≠ "" ∧ '/' ∉ name.toList := by decide
    exact ⟨⟨(hall name hname).1, (hall name hname).2⟩, Sample.artifact_readsBack name⟩
  have hout : ∀ a, .add a ∈ Sample.operations → ∀ name, Sample.left.2.2.locate
      ((Path.absolute Project.Sample.root).joinText a.sourcePath) ≠
        .ok (Project.artifactsAt Project.Sample.root ++ [name]) := by
    intro a ha name h
    obtain ⟨unit, hunit, rfl⟩ := Sample.mem_added ha
    have hsame := Except.ok.inj ((hlocate unit hunit).symm.trans h)
    have hlength := congrArg List.length hsame
    rw [List.length_append, List.length_append] at hlength
    have hne : Project.Sample.root.length + 2 ≠
        (Project.artifactsAt Project.Sample.root).length + 1 := by decide
    exact hne hlength
  obtain ⟨-, -, hmemory, hfiles, -, hfresh⟩ := run_refines_copies Project.Sample.start_wellFormed
    Project.Sample.names_artifacts Sample.start_empty hadded hout (Prod.ext hresult rfl)
  refine ⟨hresult, hmemory.trans ?_, ?_, (congrArg NameMap.names hfresh).trans ?_⟩
  · decide
  · apply Option.eq_none_iff_forall_ne_some.2
    intro node hnode
    obtain ⟨u, a, ha, hname, -⟩ := (hfiles _ _).1 hnode
    have hfile : fileName "D" = "D.json" := by decide
    have hnone : (({} : Copies).run Sample.operations).2.disk.get? "D" = none := by decide
    rw [← fileName_inj.1 (hfile.trans hname), hnone] at ha
    cases ha
  · decide +kernel

end Store
end ContractBuild
