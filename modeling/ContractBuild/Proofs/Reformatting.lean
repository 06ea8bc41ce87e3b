import ContractBuild.Proofs.MinifiedUnits
import ContractBuild.Proofs.Propagation

/-! Texts that differ in their cosmetics only. Where sources are minified, what is left of a text
depends on its lexemes alone, and so do its units. One such text can then stand for another one in a
source set, and no unit becomes stale or fresh by it. -/

namespace ContractBuild

open Source

namespace Source

theorem minify_of_lexemes_eq {text text' : String}
    (h : lexemes .single text.toList = lexemes .single text'.toList) :
    minify text = minify text' := by
  rw [minify_eq .single, minify_eq .single, h]

theorem fingerprintText_of_lexemes_eq {text text' : String}
    (h : lexemes .single text.toList = lexemes .single text'.toList) (unit : String) :
    fingerprintText text unit true = fingerprintText text' unit true := by
  have hparts : fingerprintParts text unit true = fingerprintParts text' unit true := by
    rw [fingerprintParts, fingerprintParts, if_pos rfl, if_pos rfl, minify_of_lexemes_eq h]
  rw [fingerprintText, hparts]
  rfl

theorem names_of_lexemes_eq {text text' : String}
    (h : lexemes .single text.toList = lexemes .single text'.toList) :
    (declarations (Text.bytes text)).map (·.name) =
      (declarations (Text.bytes text')).map (·.name) := by
  have htokens : (tokens (Text.bytes text)).map (·.lexeme) =
      (tokens (Text.bytes text')).map (·.lexeme) := by
    rw [map_lexeme_tokens, map_lexeme_tokens, h]
  have hheadings := headings_of_tokens htokens
  have hfst := congrArg (List.map Prod.fst) hheadings
  rwa [List.map_map, List.map_map] at hfst

end Source

section Replacing

variable {files : NameMap String} {path text text' : String}

theorem SourceSet.fingerprint?_of_lexemes_eq (htext : files.get? path = some text)
    (h : lexemes .single text.toList = lexemes .single text'.toList) (name : String) :
    (ofFiles (files.insert path text')).fingerprint? name true =
      (ofFiles files).fingerprint? name true := by
  have hfile (p : String) :
      ((files.insert path text').get? p).map (fingerprintText · name true) =
        (files.get? p).map (fingerprintText · name true) := by
    rw [NameMap.get?_insert]
    split
    · rename_i hp
      rw [hp, htext, Option.map_some, Option.map_some, fingerprintText_of_lexemes_eq h]
    · rfl
  have hread (files : NameMap String) : (ofFiles files).fingerprint? name true =
      ((files.get? name).map (fingerprintText · name true)).or
        (((ofFiles files).path? name).bind fun p =>
          (files.get? p).map (fingerprintText · name true)) := by
    have hfiles : (ofFiles files).files = files := rfl
    rw [fingerprint?, text?, hfiles]
    cases files.get? name with
    | some text => rfl
    | none => exact Option.map_bind
  rw [hread, hread, hfile, path?_insert htext (names_of_lexemes_eq h).symm]
  simp only [hfile]

/-- Where sources are minified, edits of comments and blanks are not seen. -/
theorem check_of_lexemes_eq (h : lexemes .single text.toList = lexemes .single text'.toList) :
    minify text = minify text' ∧
      (∀ unit, fingerprintText text unit true = fingerprintText text' unit true) ∧
      ∀ (files : NameMap String) (path : String), files.get? path = some text →
        ∀ (store : Store) (settings : Settings), settings.minifySource = true →
          (∀ name, check (.ofFiles (files.insert path text')) store settings name =
            check (.ofFiles files) store settings name) ∧
          staleUnits (.ofFiles (files.insert path text')) store settings =
            staleUnits (.ofFiles files) store settings := by
  refine ⟨minify_of_lexemes_eq h, fingerprintText_of_lexemes_eq h, ?_⟩
  intro files path htext store settings hminify
  have hcheck (name : String) : check (.ofFiles (files.insert path text')) store settings name =
      check (.ofFiles files) store settings name := by
    refine check_of_fingerprint_eq ?_
    rw [hminify]
    exact SourceSet.fingerprint?_of_lexemes_eq htext h name
  refine ⟨hcheck, NameSet.ext_mem fun name => ?_⟩
  rw [mem_staleUnits, mem_staleUnits, hcheck,
    SourceSet.containsUnit_insert htext (names_of_lexemes_eq h).symm]

end Replacing

namespace SampleReformatted

def text : String := "contract A \x7b // don't\n string s = \"a // b\"; \x7d"

def reformatted : String :=
  "/* \x7d */contract/**/A\n\x7b string\ts=\"a // b\" ; \x7d // \x7b \"unclosed"

def files : NameMap String := .ofList [("contracts/A.sol", text)]

def settings : Settings := { minifySource := true }

def store : Store := (rebuild (.ofFiles files) .inMemory Compiler.outline settings default).store

end SampleReformatted

theorem check_of_lexemes_eq_comments :
    minify SampleReformatted.text = minify SampleReformatted.reformatted ∧
      staleUnits (.ofFiles (SampleReformatted.files.insert "contracts/A.sol"
        SampleReformatted.reformatted)) SampleReformatted.store SampleReformatted.settings = {} := by
  have h : lexemes .single SampleReformatted.text.toList =
      lexemes .single SampleReformatted.reformatted.toList := by decide +kernel
  obtain ⟨hminify, -, hset⟩ := check_of_lexemes_eq h
  have hstale := (hset SampleReformatted.files "contracts/A.sol" (by decide)
    SampleReformatted.store SampleReformatted.settings rfl).2
  exact ⟨hminify, hstale.trans (by decide +kernel)⟩

end ContractBuild
