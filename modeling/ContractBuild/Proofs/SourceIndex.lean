import ContractBuild.Proofs.Names
import ContractBuild.Source.SourceSet

/-! The unit index of a source set is a look-up in the list of all declarations, in the order of the
paths and, in a file, of the text: the first declaration of a unit counts. -/

namespace ContractBuild

open Source

def declaredUnits (path text : String) : List (String × UnitInfo) :=
  (declarations (Text.bytes text)).map fun d => (d.name, ⟨path, d.kind⟩)

theorem mem_declaredUnits {path text u : String} {info : UnitInfo} :
    (u, info) ∈ declaredUnits path text ↔
      info.path = path ∧ ∃ d ∈ declarations (Text.bytes text), d.name = u ∧ d.kind = info.kind := by
  rw [declaredUnits, List.mem_map]
  constructor
  · rintro ⟨d, hd, he⟩
    cases he
    exact ⟨rfl, d, hd, rfl, rfl⟩
  · rintro ⟨rfl, d, hd, rfl, hk⟩
    exact ⟨d, hd, by rw [hk]⟩

namespace UnitIndex

theorem get?_add (units : UnitIndex) (path : String) (d : Declaration) (u : String) :
    (units.add path d).get? u =
      (units.get? u).or (if u = d.name then some ⟨path, d.kind⟩ else none) := by
  rw [add]
  split
  · rename_i hmem
    obtain ⟨info, hinfo⟩ := NameMap.contains_iff.1 hmem
    by_cases h : u = d.name
    · rw [h, hinfo, Option.some_or]
    · rw [if_neg h, Option.or_none]
  · rename_i hmem
    rw [Bool.not_eq_true, NameMap.contains_eq_false_iff] at hmem
    rw [NameMap.get?_insert]
    by_cases h : u = d.name
    · rw [if_pos h, if_pos h, h, hmem, Option.none_or]
    · rw [if_neg h, if_neg h, Option.or_none]

theorem get?_foldl_add (path : String) (ds : List Declaration) (units : UnitIndex) (u : String) :
    (ds.foldl (fun units d => UnitIndex.add units path d) units).get? u =
      (units.get? u).or ((ds.map fun d => (d.name, (⟨path, d.kind⟩ : UnitInfo))).lookup u) := by
  induction ds generalizing units with
  | nil => rw [List.foldl_nil, List.map_nil, List.lookup_nil, Option.or_none]
  | cons d rest ih =>
    rw [List.foldl_cons, ih, get?_add, List.map_cons, NameMap.lookup_cons_ite, Option.or_assoc]
    congr 1
    by_cases h : u = d.name
    · rw [if_pos h, if_pos h, Option.some_or]
    · rw [if_neg h, if_neg h, Option.none_or]

theorem get?_addFile (units : UnitIndex) (path text u : String) :
    (units.addFile path text).get? u = (units.get? u).or ((declaredUnits path text).lookup u) :=
  get?_foldl_add path _ units u

theorem get?_foldl_addFile (l : List (String × String)) (units : UnitIndex) (u : String) :
    (l.foldl (fun units e => UnitIndex.addFile units e.1 e.2) units).get? u =
      (units.get? u).or ((l.flatMap fun e => declaredUnits e.1 e.2).lookup u) := by
  induction l generalizing units with
  | nil => rw [List.foldl_nil, List.flatMap_nil, List.lookup_nil, Option.or_none]
  | cons e rest ih =>
    rw [List.foldl_cons, ih, get?_addFile, List.flatMap_cons, List.lookup_append, Option.or_assoc]

end UnitIndex

namespace SourceSet

variable {files : NameMap String} {u path text new : String}

theorem unit?_ofFiles (files : NameMap String) (u : String) :
    (ofFiles files).unit? u = (files.entries.flatMap fun e => declaredUnits e.1 e.2).lookup u := by
  have h := UnitIndex.get?_foldl_addFile files.entries {} u
  exact h.trans (Option.none_or ..)

theorem containsUnit_iff {s : SourceSet} : s.containsUnit u = true ↔ ∃ path, s.path? u = some path := by
  rw [containsUnit, NameMap.contains_iff]
  constructor
  · rintro ⟨info, h⟩
    exact ⟨info.path, by rw [path?, unit?, h]; rfl⟩
  · rintro ⟨path, h⟩
    obtain ⟨info, hinfo, -⟩ := Option.map_eq_some_iff.1 h
    exact ⟨info, hinfo⟩

theorem declared_at_path (h : (ofFiles files).path? u = some path) :
    ∃ text, files.get? path = some text ∧ ∃ d ∈ declarations (Text.bytes text), d.name = u := by
  obtain ⟨info, hinfo, rfl⟩ := Option.map_eq_some_iff.1 h
  rw [unit?_ofFiles, List.lookup_eq_some_iff] at hinfo
  obtain ⟨l₁, l₂, he, -⟩ := hinfo
  have hmem : (u, info) ∈ files.entries.flatMap fun e => declaredUnits e.1 e.2 := by
    rw [he]
    exact List.mem_append_right _ List.mem_cons_self
  obtain ⟨⟨p, t⟩, hfile, hu⟩ := List.mem_flatMap.1 hmem
  obtain ⟨hp, d, hd, hname, -⟩ := mem_declaredUnits.1 hu
  exact ⟨t, NameMap.get?_eq_some_iff.2 (hp ▸ hfile), d, hd, hname⟩

theorem containsUnit_of_declared (hfile : files.get? path = some text) {d : Declaration}
    (hd : d ∈ declarations (Text.bytes text)) : (ofFiles files).containsUnit d.name = true := by
  have hmem : (d.name, (⟨path, d.kind⟩ : UnitInfo)) ∈
      files.entries.flatMap fun e => declaredUnits e.1 e.2 :=
    List.mem_flatMap.2 ⟨(path, text), NameMap.get?_eq_some_iff.1 hfile,
      mem_declaredUnits.2 ⟨rfl, d, hd, rfl, rfl⟩⟩
  obtain ⟨info, hinfo⟩ := NameMap.exists_lookup_of_mem hmem
  exact NameMap.contains_iff.2 ⟨info, (unit?_ofFiles files d.name).trans hinfo⟩

theorem fingerprint?_of_containsUnit (h : (ofFiles files).containsUnit u = true) (minified : Bool) :
    ∃ f, (ofFiles files).fingerprint? u minified = some f := by
  obtain ⟨path, hpath⟩ := containsUnit_iff.1 h
  obtain ⟨text, htext, -⟩ := declared_at_path hpath
  rw [fingerprint?, text?]
  cases (ofFiles files).files.get? u with
  | some text => exact ⟨_, rfl⟩
  | none =>
    rw [hpath]
    exact ⟨_, congrArg _ htext⟩

theorem text?_of_path (htext : files.get? path = some text) :
    (ofFiles files).text? path = some text := by
  have h : (ofFiles files).files.get? path = some text := htext
  rw [text?, h]

theorem path?_ofFiles (files : NameMap String) (u : String) :
    (ofFiles files).path? u = (files.entries.flatMap fun e =>
      ((declarations (Text.bytes e.2)).map (·.name)).map fun name => (name, e.1)).lookup u := by
  rw [path?, unit?_ofFiles, ← NameMap.lookup_map_snd, List.map_flatMap]
  simp only [declaredUnits, List.map_map]
  rfl

theorem path?_insert (htext : files.get? path = some text)
    (hnames : (declarations (Text.bytes new)).map (·.name) =
      (declarations (Text.bytes text)).map (·.name)) (u : String) :
    (ofFiles (files.insert path new)).path? u = (ofFiles files).path? u := by
  rw [path?_ofFiles, path?_ofFiles]
  congr 1
  refine NameMap.flatMap_insertEntry files.ascending (NameMap.get?_eq_some_iff.1 htext) ?_
  rw [hnames]

theorem containsUnit_insert (htext : files.get? path = some text)
    (hnames : (declarations (Text.bytes new)).map (·.name) =
      (declarations (Text.bytes text)).map (·.name)) (u : String) :
    (ofFiles (files.insert path new)).containsUnit u = (ofFiles files).containsUnit u := by
  rw [Bool.eq_iff_iff, containsUnit_iff, containsUnit_iff]
  simp only [path?_insert htext hnames]

/-- No path is the name of a unit, so that a name leads to the file that declares it. -/
def PathsApart (s : SourceSet) : Prop := ∀ path, s.files.contains path = true → s.containsUnit path = false

theorem text?_of_unit {s : SourceSet} (hs : s.PathsApart) (hpath : s.path? u = some path) :
    s.text? u = s.files.get? path := by
  have hunit : s.containsUnit u = true := containsUnit_iff.2 ⟨path, hpath⟩
  have hnone : s.files.get? u = none := by
    rw [← NameMap.contains_eq_false_iff, Bool.eq_false_iff]
    intro h
    rw [hs u h] at hunit
    cases hunit
  rw [text?, hnone, hpath]
  rfl

theorem PathsApart.insert (hs : (ofFiles files).PathsApart) (htext : files.get? path = some text)
    (hnames : (declarations (Text.bytes new)).map (·.name) =
      (declarations (Text.bytes text)).map (·.name)) :
    (ofFiles (files.insert path new)).PathsApart := by
  intro p hp
  rw [containsUnit_insert htext hnames]
  refine hs p ?_
  obtain ⟨t, ht⟩ := NameMap.contains_iff.1 hp
  by_cases h : p = path
  · exact NameMap.contains_iff.2 ⟨text, h ▸ htext⟩
  · have hget : (files.insert path new).get? p = some t := ht
    rw [NameMap.get?_insert, if_neg h] at hget
    exact NameMap.contains_iff.2 ⟨t, hget⟩

theorem text?_insert (hs : (ofFiles files).PathsApart) (htext : files.get? path = some text)
    (hnames : (declarations (Text.bytes new)).map (·.name) =
      (declarations (Text.bytes text)).map (·.name)) {p : String}
    (hp : (ofFiles files).path? u = some p) :
    (ofFiles (files.insert path new)).text? u = if p = path then some new else files.get? p := by
  rw [text?_of_unit (hs.insert htext hnames) ((path?_insert htext hnames u).trans hp)]
  exact NameMap.get?_insert ..

end SourceSet
end ContractBuild
