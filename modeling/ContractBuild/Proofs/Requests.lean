import ContractBuild.Compiler.Command
import ContractBuild.Proofs.Answers
import ContractBuild.Proofs.JsonStrings
import ContractBuild.Proofs.Spans

/-! What external compilers read. The text of a request determines the sources in it, so a program that
knows its input by heart answers one set of sources only. -/

namespace ContractBuild

namespace Json

def textMembers (entries : List (String × String)) : List Char :=
  (",".intercalate (compactMembers (entries.map fun e => (e.1, .string e.2)))).toList

def quotedOnto (s : String) (rest : List Char) : List Char :=
  '"' :: (s.toList.flatMap (fun c => (escapedChar c).toList) ++ '"' :: rest)

theorem toList_stringText_append (s : String) (rest : List Char) :
    (stringText s).toList ++ rest = quotedOnto s rest := by
  rw [toList_stringText, List.cons_append, List.append_assoc]
  rfl

theorem quotedOnto_inj {s s' : String} {rest rest' : List Char}
    (h : quotedOnto s rest = quotedOnto s' rest') : s = s' ∧ rest = rest' := by
  have hread := congrArg string? (List.cons.inj h).2
  rw [string?_escaped, string?_escaped] at hread
  exact Prod.mk.inj (Option.some.inj hread)

def behindMember (rest : List Char) : List (String × String) → List Char
  | [] => '\x7d' :: rest
  | e :: es => ',' :: (textMembers (e :: es) ++ '\x7d' :: rest)

theorem textMembers_cons (k v : String) (es : List (String × String)) (rest : List Char) :
    textMembers ((k, v) :: es) ++ '\x7d' :: rest =
      quotedOnto k (':' :: quotedOnto v (behindMember rest es)) := by
  rw [← toList_stringText_append, ← toList_stringText_append]
  cases es with
  | nil =>
    show (",".intercalate [stringText k ++ ":" ++ stringText v]).toList ++ _ = _
    rw [String.intercalate_singleton, String.toList_append, String.toList_append, List.append_assoc,
      List.append_assoc]
    rfl
  | cons e es =>
    show (",".intercalate ((stringText k ++ ":" ++ stringText v) ::
      (stringText e.1 ++ ":" ++ stringText e.2) :: _)).toList ++ _ = _
    rw [behindMember, textMembers, String.toList_intercalate, String.toList_intercalate, List.map_cons,
      List.map_cons, List.intercalate_cons_cons, String.toList_append, String.toList_append]
    simp only [List.append_assoc]
    rfl

theorem textMembers_inj {es es' : List (String × String)} {rest rest' : List Char}
    (h : textMembers es ++ '\x7d' :: rest = textMembers es' ++ '\x7d' :: rest') : es = es' := by
  induction es generalizing es' with
  | nil =>
    cases es' with
    | nil => rfl
    | cons e' es' =>
      rw [textMembers_cons] at h
      exact absurd (List.cons.inj h).1 (by decide)
  | cons e es ih =>
    cases es' with
    | nil =>
      rw [textMembers_cons] at h
      exact absurd (List.cons.inj h).1 (by decide)
    | cons e' es' =>
      rw [textMembers_cons, textMembers_cons] at h
      obtain ⟨hkey, h⟩ := quotedOnto_inj h
      obtain ⟨hvalue, h⟩ := quotedOnto_inj (List.cons.inj h).2
      -- A comma follows a member, or the brace: so both texts go on or both end.
      have hrest : es = es' := by
        cases es with
        | nil =>
          cases es' with
          | nil => rfl
          | cons f' es' => exact absurd (List.cons.inj h).1 (by decide)
        | cons f es =>
          cases es' with
          | nil => exact absurd (List.cons.inj h).1 (by decide)
          | cons f' es' => exact ih (List.cons.inj h).2
      rw [hrest, Prod.ext hkey hvalue]

end Json

namespace CompileRequest

theorem toList_text (r : CompileRequest) : ∃ rest, r.text.toList =
    "\x7b\"sources\":\x7b".toList ++ (Json.textMembers r.sources.entries ++ '\x7d' :: rest) := by
  refine ⟨",\"settings\":".toList ++ (r.settings.toJson.compact.toList ++ ['\x7d']), ?_⟩
  show ("\x7b" ++ ",".intercalate
    [Json.stringText "sources" ++ ":" ++ ("\x7b" ++ ",".intercalate
      (Json.compactMembers (r.sources.entries.map fun e => (e.1, .string e.2))) ++ "\x7d"),
      Json.stringText "settings" ++ ":" ++ r.settings.toJson.compact] ++ "\x7d").toList = _
  simp only [String.toList_append, String.toList_intercalate, List.map_cons, List.map_nil,
    List.intercalate_cons_cons, List.intercalate_singleton, Json.toList_stringText, Json.textMembers,
    List.append_assoc]
  rfl

theorem sources_of_text {r r' : CompileRequest} (h : r.text = r'.text) : r.sources = r'.sources := by
  obtain ⟨rest, hr⟩ := r.toList_text
  obtain ⟨rest', hr'⟩ := r'.toList_text
  rw [h, hr', List.append_cancel_left_eq] at hr
  have hentries : r.sources.entries = r'.sources.entries := Json.textMembers_inj hr.symm
  exact NameMap.ext_get? fun path => by rw [NameMap.get?, NameMap.get?, hentries]

def units (r : CompileRequest) : List String :=
  r.sources.entries.flatMap fun e => (Source.declarations (Text.bytes e.2)).map (·.name)

theorem mem_units {r : CompileRequest} {u : String} : u ∈ r.units ↔ r.Declares u := by
  simp only [units, Declares, List.mem_flatMap, List.mem_map, Prod.exists, NameMap.get?_eq_some_iff]

end CompileRequest

/-- A program that knows the answer to one request, and fails at any other input. -/
def Programs.knowing (request : CompileRequest) (output : String) : Programs := fun _ _ input =>
  .ok (if input = Text.bytes request.text then { output := Text.bytes output } else { status := 1 })

section Knowing

variable {request : CompileRequest} {output : String}

theorem Programs.knowing_compiler (command : Command) (t : FileTree) (other : CompileRequest) :
    command.compiler (.knowing request output) t other =
      if other.text = request.text then ({ output := Text.bytes output } : ProgramOutput).answer
      else .error (.rejected (Text.trim (Text.decodeLossy []))) := by
  show (if Text.bytes other.text = Text.bytes request.text then _ else _ : ProgramOutput).answer = _
  by_cases h : other.text = request.text
  · rw [if_pos h, if_pos (congrArg Text.bytes h)]
  · rw [if_neg h, if_neg fun hsame => h (Text.bytes_inj hsame)]
    rfl

theorem Programs.knowing_exact {artifacts : NameMap Artifact}
    (hanswer : ({ output := Text.bytes output } : ProgramOutput).answer = .ok artifacts)
    (hexact : ∀ u, artifacts.contains u = true ↔ u ∈ request.units) (command : Command)
    (t : FileTree) : (command.compiler (.knowing request output) t).Exact := by
  intro other found hfound u
  rw [knowing_compiler] at hfound
  split at hfound
  · rename_i htext
    cases hanswer.symm.trans hfound
    rw [hexact, CompileRequest.mem_units, CompileRequest.Declares, CompileRequest.Declares,
      CompileRequest.sources_of_text htext]
  · cases hfound

end Knowing
end ContractBuild
