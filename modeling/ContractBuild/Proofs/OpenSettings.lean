import ContractBuild.Proofs.Reuse
import Mathlib.Logic.Function.Iterate

/-! Settings that are opened. The recorded settings are compared one after the other, so that of two
settings, the second one opened somewhere, the second one finds no difference or a later one. What is
stale with the opened settings is stale with the others, and so is all that depends on it. -/

namespace ContractBuild

theorem find?_cons_ite {α : Type} (p : α → Bool) (a : α) (l : List α) :
    (a :: l).find? p = if p a then some a else l.find? p := by
  by_cases h : p a = true
  · rw [List.find?_cons_of_pos h, if_pos h]
  · rw [List.find?_cons_of_neg h, if_neg h]

theorem find?_of_imp {α : Type} {p q : α → Bool} (h : ∀ a, q a = true → p a = true) (l : List α) :
    l.find? q = l.find? p ∨ ∃ a, l.find? p = some a ∧
      (l.find? q = none ∨ ∃ b, [a, b].Sublist l ∧ l.find? q = some b) := by
  induction l with
  | nil => exact Or.inl rfl
  | cons x rest ih =>
    by_cases hq : q x = true
    · exact Or.inl (by rw [List.find?_cons_of_pos hq, List.find?_cons_of_pos (h x hq)])
    · rw [List.find?_cons_of_neg hq]
      by_cases hp : p x = true
      · rw [List.find?_cons_of_pos hp]
        refine Or.inr ⟨x, rfl, ?_⟩
        cases hrest : rest.find? q with
        | none => exact Or.inl rfl
        | some b =>
          have hb : [b].Sublist rest := List.singleton_sublist.2 (List.mem_of_find?_eq_some hrest)
          exact Or.inr ⟨b, hb.cons_cons x, rfl⟩
      · rw [List.find?_cons_of_neg hp]
        rcases ih with hsame | ⟨a, ha, hnone | ⟨b, hab, hb⟩⟩
        · exact Or.inl hsame
        · exact Or.inr ⟨a, ha, Or.inl hnone⟩
        · exact Or.inr ⟨a, ha, Or.inr ⟨b, hab.cons x, hb⟩⟩

namespace Setting

def inOrder : List Setting := [.version, .optimize, .runs, .evmVersion]

def Before (k k' : Setting) : Prop := [k, k'].Sublist inOrder

instance (k k' : Setting) : Decidable (k.Before k') := inferInstanceAs (Decidable (List.Sublist _ _))

end Setting

namespace Settings

def accepts (s : Settings) (recorded : RecordedSettings) : Setting → Bool
  | .version => agrees s.effectiveVersion fun v =>
      normalizeVersion v == normalizeVersion recorded.version
  | .optimize => agrees s.optimize (· == recorded.optimize)
  | .runs => agrees s.runs (· == recorded.runs)
  | .evmVersion => agrees s.effectiveEvmVersion fun v => recorded.evmVersion == some v

theorem mismatch?_eq_find? (s : Settings) (recorded : RecordedSettings) :
    s.mismatch? recorded = Setting.inOrder.find? fun k => !s.accepts recorded k := by
  rw [mismatch?, Setting.inOrder, find?_cons_ite, find?_cons_ite, find?_cons_ite, find?_cons_ite,
    List.find?_nil]
  rfl

/-- Some settings are opened; texts may have been emptied. -/
structure OpenedFrom (opened s : Settings) : Prop where
  version : opened.version = s.version ∨ opened.version = none ∨ opened.version = some ""
  optimize : opened.optimize = s.optimize ∨ opened.optimize = none
  runs : opened.runs = s.runs ∨ opened.runs = none
  evmVersion : opened.evmVersion = s.evmVersion ∨ opened.evmVersion = none ∨
    opened.evmVersion = some ""
  minifySource : opened.minifySource = s.minifySource

theorem nonempty_of_opened {opened text : Option String}
    (h : opened = text ∨ opened = none ∨ opened = some "") :
    nonempty opened = nonempty text ∨ nonempty opened = none := by
  rcases h with rfl | rfl | rfl
  · exact Or.inl rfl
  · exact Or.inr rfl
  · exact Or.inr rfl

theorem agrees_of_opened {α : Type} {opened asked : Option α} {holds : α → Bool}
    (h : opened = asked ∨ opened = none) (hagrees : agrees asked holds = true) :
    agrees opened holds = true := by
  rcases h with rfl | rfl
  · exact hagrees
  · rfl

variable {opened s : Settings}

theorem OpenedFrom.accepts (h : opened.OpenedFrom s) {recorded : RecordedSettings} (k : Setting)
    (hk : s.accepts recorded k = true) : opened.accepts recorded k = true := by
  cases k with
  | version => exact agrees_of_opened (nonempty_of_opened h.version) hk
  | optimize => exact agrees_of_opened h.optimize hk
  | runs => exact agrees_of_opened h.runs hk
  | evmVersion => exact agrees_of_opened (nonempty_of_opened h.evmVersion) hk

theorem OpenedFrom.mismatch? (h : opened.OpenedFrom s) (recorded : RecordedSettings) :
    opened.mismatch? recorded = s.mismatch? recorded ∨ ∃ k, s.mismatch? recorded = some k ∧
      (opened.mismatch? recorded = none ∨
        ∃ later, k.Before later ∧ opened.mismatch? recorded = some later) := by
  rw [mismatch?_eq_find?, mismatch?_eq_find?]
  refine find?_of_imp (fun k hk => ?_) _
  rw [Bool.not_eq_true'] at hk ⊢
  rw [Bool.eq_false_iff] at hk ⊢
  exact fun haccepts => hk (h.accepts k haccepts)

end Settings

namespace Store

theorem growFor_eq_iterate (s : Store) (rounds : Nat) (names : NameSet) :
    s.growFor rounds names = s.grow^[rounds] names := by
  induction rounds generalizing names with
  | zero => rfl
  | succ rounds ih =>
    rw [growFor, Function.iterate_succ_apply]
    split
    · rename_i hsize
      have hsub : ∀ u ∈ names, u ∈ s.grow names := fun u hu => NameSet.mem_foldl_insert.2 (Or.inr hu)
      have hfixed : s.grow names = names :=
        (NameSet.eq_of_subset_of_size_le hsub (Nat.le_of_eq hsize)).symm
      rw [hfixed, Function.iterate_fixed hfixed]
    · exact ih _

theorem grow_mono (s : Store) {names more : NameSet} (h : ∀ u ∈ names, u ∈ more) :
    ∀ u ∈ s.grow names, u ∈ s.grow more := by
  have hdependents : ∀ u ∈ s.dependentsOfAny names, u ∈ s.dependentsOfAny more := by
    intro u hu
    obtain ⟨a, ha, rfl⟩ := List.mem_map.1 hu
    obtain ⟨hstored, hany⟩ := List.mem_filter.1 ha
    obtain ⟨v, hv, hmem⟩ := List.any_eq_true.1 hany
    have hmore : a.dependencies.names.any more.contains = true :=
      List.any_eq_true.2 ⟨v, hv, NameSet.contains_iff.2 (h v (NameSet.contains_iff.1 hmem))⟩
    exact List.mem_map.2 ⟨a, List.mem_filter.2 ⟨hstored, hmore⟩, rfl⟩
  intro u hu
  rcases NameSet.mem_foldl_insert.1 hu with hu | hu
  · exact NameSet.mem_foldl_insert.2 (Or.inl (hdependents u hu))
  · exact NameSet.mem_foldl_insert.2 (Or.inr (h u hu))

theorem close_mono (s : Store) {names more : NameSet} (h : ∀ u ∈ names, u ∈ more) :
    ∀ u ∈ s.close names, u ∈ s.close more := by
  rw [close, close, growFor_eq_iterate, growFor_eq_iterate]
  generalize s.entries.size + 1 = rounds
  induction rounds generalizing names more with
  | zero => exact h
  | succ rounds ih =>
    rw [Function.iterate_succ_apply, Function.iterate_succ_apply]
    exact ih (s.grow_mono h)

end Store

section Opened

variable {opened settings : Settings} {sources : SourceSet} {store : Store} {u : String}

theorem check_of_opened (h : opened.OpenedFrom settings) (sources : SourceSet) (store : Store)
    (u : String) :
    check sources store opened u = check sources store settings u ∨
      ∃ k, check sources store settings u = .settingChanged k ∧
        (check sources store opened u = .fresh ∨
          ∃ later, k.Before later ∧ check sources store opened u = .settingChanged later) := by
  rw [check, check, h.minifySource]
  cases store.get? u with
  | none => exact Or.inl rfl
  | some a =>
    cases sources.fingerprint? u settings.minifySource with
    | none => exact Or.inl rfl
    | some fingerprint =>
      dsimp only
      by_cases hf : fingerprint = a.fingerprint
      · rw [if_neg (not_not_intro hf), if_neg (not_not_intro hf)]
        rcases h.mismatch? a.compiler with hsame | ⟨k, hk, hnone | ⟨later, hlater, hfound⟩⟩
        · exact Or.inl (by rw [hsame])
        · exact Or.inr ⟨k, by rw [hk], Or.inl (by rw [hnone])⟩
        · exact Or.inr ⟨k, by rw [hk], Or.inr ⟨later, hlater, by rw [hfound]⟩⟩
      · rw [if_pos hf, if_pos hf]
        exact Or.inl rfl

theorem staleUnits_of_opened (h : opened.OpenedFrom settings)
    (hu : u ∈ staleUnits sources store opened) : u ∈ staleUnits sources store settings := by
  obtain ⟨hdeclared, hstale⟩ := mem_staleUnits.1 hu
  refine mem_staleUnits.2 ⟨hdeclared, ?_⟩
  rcases check_of_opened h sources store u with hsame | ⟨k, hk, -⟩
  · rw [← hsame]
    exact hstale
  · rw [hk]
    exact Staleness.noConfusion

end Opened

/-- A unit stands as before, unless an opened setting had changed. -/
theorem opening_settings_rebuilds_less (sources : SourceSet) (store : Store)
    {opened settings : Settings} (h : opened.OpenedFrom settings) :
    (∀ u ∈ staleUnits sources store opened, u ∈ staleUnits sources store settings) ∧
    (∀ u ∈ store.close (staleUnits sources store opened),
      u ∈ store.close (staleUnits sources store settings)) ∧
    ∀ u, check sources store opened u = check sources store settings u ∨
      ∃ k, check sources store settings u = .settingChanged k ∧
        (check sources store opened u = .fresh ∨
          ∃ later, k.Before later ∧ check sources store opened u = .settingChanged later) := by
  have hstale : ∀ u ∈ staleUnits sources store opened, u ∈ staleUnits sources store settings :=
    fun _ => staleUnits_of_opened h
  exact ⟨hstale, store.close_mono hstale, check_of_opened h sources store⟩

namespace Sample

def asked : Settings := { version := some "v0.9.0", runs := some 5 }

def askedLess : Settings := { asked with version := some "" }

theorem askedLess_opened : askedLess.OpenedFrom asked :=
  ⟨Or.inr (Or.inr rfl), Or.inl rfl, Or.inl rfl, Or.inl rfl, rfl⟩

end Sample

theorem opening_settings_rebuilds_less_of_version :
    let sources := SourceSet.ofFiles (Sample.files "")
    Sample.askedLess.OpenedFrom Sample.asked ∧
    check sources Sample.onceBuilt Sample.asked "D" = .settingChanged .version ∧
    check sources Sample.onceBuilt Sample.askedLess "D" = .settingChanged .runs ∧
    ∀ u ∈ Sample.onceBuilt.close (staleUnits sources Sample.onceBuilt Sample.askedLess),
      u ∈ Sample.onceBuilt.close (staleUnits sources Sample.onceBuilt Sample.asked) := by
  have h := opening_settings_rebuilds_less (.ofFiles (Sample.files "")) Sample.onceBuilt
    Sample.askedLess_opened
  exact ⟨Sample.askedLess_opened, by decide, by decide, h.2.1⟩

end ContractBuild
