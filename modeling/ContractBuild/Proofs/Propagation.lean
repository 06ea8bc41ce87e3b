import ContractBuild.Compiler.Outline
import ContractBuild.Proofs.Fingerprints
import ContractBuild.Proofs.Rebuild

/-! What the change of one declaration makes stale. The other units of the file leave it out of their
fingerprints, and the index keeps all names and paths, so only the unit itself is stale. What has to
be built is the unit with all that depends on it. -/

namespace ContractBuild

open Source

/-- The fingerprints of a unit in two texts agree although they are made from different parts. -/
def Collide (text text' unit : String) (minified : Bool) : Prop :=
  fingerprintText text unit minified = fingerprintText text' unit minified ∧
    fingerprintParts text unit minified ≠ fingerprintParts text' unit minified

instance (text text' unit : String) (minified : Bool) :
    Decidable (Collide text text' unit minified) := inferInstanceAs (Decidable (_ ∧ _))

theorem check_of_fingerprint_eq {s s' : SourceSet} {store : Store} {settings : Settings} {u : String}
    (h : s.fingerprint? u settings.minifySource = s'.fingerprint? u settings.minifySource) :
    check s store settings u = check s' store settings u := by
  rw [check, check, h]

theorem check_of_fingerprint_ne {s s' : SourceSet} {store : Store} {settings : Settings} {u : String}
    {f f' : Digest} (hfresh : check s store settings u = .fresh)
    (hf : s.fingerprint? u settings.minifySource = some f)
    (hf' : s'.fingerprint? u settings.minifySource = some f') (hne : f' ≠ f) :
    check s' store settings u = .sourceChanged := by
  obtain ⟨a, ha, hfa, -⟩ := check_eq_fresh_iff.1 hfresh
  obtain rfl := Option.some_inj.1 (hf.symm.trans hfa)
  rw [check, ha, hf']
  exact if_pos hne

section Replacing

variable {files : NameMap String} {path text before old new after : String} {d : Declaration}

theorem fingerprint?_of_sibling (hpaths : (SourceSet.ofFiles files).PathsApart)
    (htext : files.get? path = some text) (hspan : Span text d before old after)
    (hnew : SelfContained new d.name)
    (habstract : opensAbstract (Text.bytes old) = opensAbstract (Text.bytes new)) {v : String}
    (hv : (SourceSet.ofFiles files).containsUnit v = true) (hne : v ≠ d.name) :
    (SourceSet.ofFiles (files.insert path (before ++ (new ++ after)))).fingerprint? v false =
      (SourceSet.ofFiles files).fingerprint? v false := by
  obtain ⟨p, hp⟩ := SourceSet.containsUnit_iff.1 hv
  obtain ⟨t, ht, e, he, hname⟩ := SourceSet.declared_at_path hp
  rw [SourceSet.fingerprint?, SourceSet.fingerprint?, SourceSet.text?_of_unit hpaths hp,
    SourceSet.text?_insert hpaths htext (names_replace hspan hnew habstract) hp]
  by_cases hpath : p = path
  · subst hpath
    obtain rfl := Option.some_inj.1 (ht.symm.trans htext)
    have hparts := fingerprintParts_of_sibling hspan hnew habstract
      (List.mem_map.2 ⟨e, he, hname⟩) hne.symm hne.symm
    have hget : (SourceSet.ofFiles files).files.get? p = some t := ht
    rw [if_pos rfl, hget]
    exact congrArg some (congrArg Digest.ofParts hparts)
  · rw [if_neg hpath]
    rfl

/-- The changed unit alone is stale, and its closure are the units that lead to it. -/
theorem staleUnits_of_replaced {store : Store} {settings : Settings} (hstore : store.KeyedByName)
    (hminify : settings.minifySource = false) (hpaths : (SourceSet.ofFiles files).PathsApart)
    (hfresh : ∀ v, (SourceSet.ofFiles files).containsUnit v = true →
      check (.ofFiles files) store settings v = .fresh)
    (hpath : (SourceSet.ofFiles files).path? d.name = some path)
    (htext : files.get? path = some text) (hspan : Span text d before old after)
    (hnew : SelfContained new d.name) (hne : new ≠ old)
    (habstract : opensAbstract (Text.bytes old) = opensAbstract (Text.bytes new))
    (hcollide : ¬ Collide (before ++ (new ++ after)) text d.name false) :
    staleUnits (.ofFiles (files.insert path (before ++ (new ++ after)))) store settings =
        .ofList [d.name] ∧
      ∀ v, v ∈ store.close
          (staleUnits (.ofFiles (files.insert path (before ++ (new ++ after)))) store settings) ↔
        store.Reaches v d.name := by
  have hnames := names_replace hspan hnew habstract
  have hdeclared : (SourceSet.ofFiles files).containsUnit d.name = true :=
    SourceSet.containsUnit_iff.2 ⟨path, hpath⟩
  have hchanged : check (.ofFiles (files.insert path (before ++ (new ++ after)))) store settings
      d.name = .sourceChanged := by
    have hbefore : (SourceSet.ofFiles files).fingerprint? d.name settings.minifySource =
        some (fingerprintText text d.name false) := by
      rw [hminify, SourceSet.fingerprint?, SourceSet.text?_of_unit hpaths hpath]
      exact congrArg _ htext
    have hafter : (SourceSet.ofFiles (files.insert path (before ++ (new ++ after)))).fingerprint?
        d.name settings.minifySource =
          some (fingerprintText (before ++ (new ++ after)) d.name false) := by
      rw [hminify, SourceSet.fingerprint?, SourceSet.text?_insert hpaths htext hnames hpath, if_pos rfl]
      rfl
    -- the parts differ, so equal fingerprints would be a collision
    refine check_of_fingerprint_ne (hfresh d.name hdeclared) hbefore hafter fun h => ?_
    exact hcollide ⟨h, fingerprintParts_of_changed hspan hnew habstract hne⟩
  have hsame : ∀ v, (SourceSet.ofFiles files).containsUnit v = true → v ≠ d.name →
      check (.ofFiles (files.insert path (before ++ (new ++ after)))) store settings v = .fresh := by
    intro v hv hvd
    rw [← hfresh v hv]
    apply check_of_fingerprint_eq
    rw [hminify]
    exact fingerprint?_of_sibling hpaths htext hspan hnew habstract hv hvd
  have hstale : staleUnits (.ofFiles (files.insert path (before ++ (new ++ after)))) store settings =
      .ofList [d.name] := by
    refine NameSet.ext_mem fun v => ?_
    rw [mem_staleUnits, NameSet.mem_ofList, List.mem_singleton,
      SourceSet.containsUnit_insert htext hnames]
    constructor
    · rintro ⟨hv, hcheck⟩
      by_contra hvd
      exact hcheck (hsame v hv hvd)
    · rintro rfl
      exact ⟨hdeclared, by rw [hchanged]; rintro ⟨⟩⟩
  refine ⟨hstale, fun v => ?_⟩
  rw [hstale, Store.mem_close_iff hstore]
  simp only [NameSet.mem_ofList, List.mem_singleton, exists_eq_left]

end Replacing

namespace SampleFile

def before : String := "contract A \x7b\x7d "

def old : String := "contract D \x7b uint a; \x7d"

def new : String := "contract D \x7b uint b; string s = '\x7d'; \x7d"

def after : String := " contract M is D \x7b\x7d"

def text : String := before ++ (old ++ after)

def files : NameMap String := .ofList [("contracts/T.sol", text)]

def changed : SourceSet := .ofFiles (files.insert "contracts/T.sol" (before ++ (new ++ after)))

def store : Store := (rebuild (.ofFiles files) .inMemory Compiler.outline {} default).store

def second : Declaration := ⟨"D", .contract, [], 14, 36⟩

theorem span : Span text second before old after :=
  ⟨rfl, by decide, by decide +kernel, by decide +kernel⟩

theorem selfContained : SelfContained new second.name :=
  selfContained_iff.2 ⟨⟨"D", .contract, [], 0, 38⟩, by decide⟩

end SampleFile

theorem staleUnits_of_replaced_in_file :
    staleUnits SampleFile.changed SampleFile.store {} = .ofList ["D"] ∧
      ∀ v, v ∈ SampleFile.store.close (staleUnits SampleFile.changed SampleFile.store {}) ↔
        SampleFile.store.Reaches v "D" := by
  have hstore : SampleFile.store.KeyedByName := Store.keyedByName_of_entries (by decide)
  have hpaths : (SourceSet.ofFiles SampleFile.files).PathsApart := by
    intro p hp
    rw [← NameMap.mem_names_iff] at hp
    exact (by decide : ∀ p ∈ SampleFile.files.names,
      (SourceSet.ofFiles SampleFile.files).containsUnit p = false) p hp
  have hfresh : ∀ v, (SourceSet.ofFiles SampleFile.files).containsUnit v = true →
      check (.ofFiles SampleFile.files) SampleFile.store {} v = .fresh := by
    intro v hv
    exact (by decide : ∀ v ∈ (SourceSet.ofFiles SampleFile.files).units.names,
      check (.ofFiles SampleFile.files) SampleFile.store {} v = .fresh) v (NameMap.mem_names_iff.2 hv)
  exact staleUnits_of_replaced (d := SampleFile.second) hstore rfl hpaths hfresh (by decide)
    (by decide) SampleFile.span SampleFile.selfContained (by decide +kernel) (by decide +kernel)
    (by decide)

end ContractBuild
