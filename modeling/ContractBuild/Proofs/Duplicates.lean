import ContractBuild.Proofs.History
import ContractBuild.Proofs.LeastPaths

/-! Units that several files declare. The index has the file with the least path, but a compiler that
is given more of these files answers with the artifact from the last one, and this is stored under the
fingerprint of the file in the index. What is stored of a unit comes from the file that the index has
just as long as that file is the last one of those that were compiled with it. -/

namespace ContractBuild

open FileTree ContractBuild.Path Store Source

namespace CompileRequest

def DeclaresIn (request : CompileRequest) (u path : String) : Prop :=
  ∃ text, request.sources.get? path = some text ∧
    ∃ d ∈ declarations (Text.bytes text), d.name = u

/-- Of the files of a request that declare the unit the last one is at the path. -/
structure DeclaresLast (request : CompileRequest) (u path : String) : Prop where
  declared : request.DeclaresIn u path
  last : ∀ other, request.DeclaresIn u other → other ≤ path

variable {request : CompileRequest} {u path other : String}

theorem DeclaresIn.declares (h : request.DeclaresIn u path) : request.Declares u := ⟨path, h⟩

theorem DeclaresLast.unique (h : request.DeclaresLast u path) (h' : request.DeclaresLast u other) :
    path = other :=
  String.le_antisymm (h'.last path h.declared) (h.last other h'.declared)

instance (request : CompileRequest) (u path : String) : Decidable (request.DeclaresLast u path) :=
  decidable_of_iff
    ((∃ e ∈ request.sources.entries, e.1 = path ∧
        ∃ d ∈ declarations (Text.bytes e.2), d.name = u) ∧
      ∀ e ∈ request.sources.entries, (∃ d ∈ declarations (Text.bytes e.2), d.name = u) →
        e.1 ≤ path) <| by
    constructor
    · rintro ⟨⟨⟨_, text⟩, hmem, rfl, hd⟩, hlast⟩
      refine ⟨⟨text, NameMap.get?_eq_some_iff.2 hmem, hd⟩, ?_⟩
      rintro other ⟨text', htext', hd'⟩
      exact hlast (other, text') (NameMap.get?_eq_some_iff.1 htext') hd'
    · rintro ⟨⟨text, htext, hd⟩, hlast⟩
      refine ⟨⟨(path, text), NameMap.get?_eq_some_iff.1 htext, rfl, hd⟩, fun e he hd' => ?_⟩
      exact hlast e.1 ⟨e.2, NameMap.get?_eq_some_iff.2 he, hd'⟩

theorem declaresLast_path_iff {files : NameMap String} (hwithin : request.Within (.ofFiles files))
    (hdeclares : request.Declares u) (hpath : (SourceSet.ofFiles files).path? u = some path) :
    request.DeclaresLast u path ↔ ∀ other, request.DeclaresIn u other → other = path := by
  obtain ⟨info, hinfo, rfl⟩ := Option.map_eq_some_iff.1 hpath
  have hleast : ∀ other, request.DeclaresIn u other → info.path ≤ other := by
    rintro other ⟨text, htext, hd⟩
    exact Text.bytes_le_iff.1
      ((SourceSet.isLeast_of_unit? hinfo).least other text (hwithin other text htext) hd)
  constructor
  · rintro ⟨-, hlast⟩ other hother
    exact String.le_antisymm (hlast other hother) (hleast other hother)
  · intro hall
    obtain ⟨other, hother⟩ := hdeclares
    refine ⟨hall other hother ▸ hother, fun another hin => ?_⟩
    cases hall another hin
    exact String.le_refl _

end CompileRequest

namespace Compiler

/-- Of a unit that several files declare, the artifact of the last file counts. -/
structure KeepsLast (compiler : Compiler) : Prop where
  complete : compiler.Complete
  sourced : ∀ request artifacts, compiler request = .ok artifacts →
    ∀ u a, artifacts.get? u = some a → request.DeclaresLast u a.sourcePath

theorem last_of_lookup {α : Type} {offers : String × String → List (String × α)}
    {entries : List (String × String)} (hascending : entries.Pairwise (·.1 < ·.1)) {u : String} {a : α}
    (ha : (entries.flatMap offers).reverse.lookup u = some a) :
    ∃ e ∈ entries, (u, a) ∈ offers e ∧
      ∀ e' ∈ entries, (∃ b, (u, b) ∈ offers e') → e'.1 ≤ e.1 := by
  induction entries with
  | nil => cases ha
  | cons first rest ih =>
    obtain ⟨hfirst, hrest⟩ := List.pairwise_cons.1 hascending
    rw [List.flatMap_cons, List.reverse_append, List.lookup_append, Option.or_eq_some_iff] at ha
    rcases ha with ha | ⟨hnone, ha⟩
    · obtain ⟨e, he, hoffer, hlast⟩ := ih hrest ha
      refine ⟨e, List.mem_cons_of_mem _ he, hoffer, List.forall_mem_cons.2 ⟨fun _ => ?_, hlast⟩⟩
      exact Std.le_of_lt (hfirst e he)
    · have hoffer : (u, a) ∈ offers first := by
        obtain ⟨l₁, l₂, he, -⟩ := List.lookup_eq_some_iff.1 ha
        rw [← List.mem_reverse, he]
        exact List.mem_append_right _ List.mem_cons_self
      refine ⟨first, List.mem_cons_self, hoffer, List.forall_mem_cons.2
        ⟨fun _ => String.le_refl _, fun e' he' hother => ?_⟩⟩
      obtain ⟨b, hb⟩ := hother
      obtain ⟨c, hc⟩ := NameMap.exists_lookup_of_mem
        (List.mem_reverse.2 (List.mem_flatMap.2 ⟨e', he', hb⟩))
      cases hc.symm.trans hnone

theorem outline_keepsLast : outline.KeepsLast := by
  refine ⟨outline_exact.complete, fun request artifacts hok u a ha => ?_⟩
  cases hok
  rw [NameMap.get?_ofList] at ha
  obtain ⟨⟨path, text⟩, hmem, hmade, hlast⟩ := last_of_lookup request.sources.ascending ha
  obtain ⟨d, hd, he⟩ := List.mem_map.1 hmade
  cases he
  refine ⟨⟨text, NameMap.get?_eq_some_iff.2 hmem, d, hd, rfl⟩, ?_⟩
  rintro other ⟨text', htext', d', hd', hname⟩
  exact hlast (other, text') (NameMap.get?_eq_some_iff.1 htext')
    ⟨_, List.mem_map.2 ⟨d', hd', Prod.ext hname rfl⟩⟩

end Compiler

section Round

variable {files : NameMap String} {store : Store} {compiler : Compiler} {settings : Settings}
  {t : FileTree} {summary : BuildSummary} {origin : String → Option CompileRequest}

def requestAfter (origin : String → Option CompileRequest) (summary : BuildSummary)
    (request? : Option CompileRequest) (u : String) : Option CompileRequest :=
  if u ∈ summary.installed then request? else origin u

def Artifact.FromLast (a : Artifact) (origin : String → Option CompileRequest) (u : String) : Prop :=
  ∃ request, origin u = some request ∧ request.DeclaresLast u a.sourcePath

theorem fromLast_of_round (hcompiler : compiler.KeepsLast)
    (hread : ∀ u a, store.get? u = some a → a.FromLast origin u)
    (h : (rebuild (.ofFiles files) store compiler settings t).result = .ok summary) {u : String}
    {a : Artifact}
    (ha : (rebuild (.ofFiles files) store compiler settings t).store.get? u = some a) :
    a.FromLast (requestAfter origin summary
      (rebuild (.ofFiles files) store compiler settings t).request?) u := by
  rcases get?_rebuild h u with ⟨hout, hget⟩ |
    ⟨request, artifacts, made, hrequest, hanswer, hmade, hin, hget⟩
  · rw [ha] at hget
    split at hget
    · cases hget
    · obtain ⟨request, horigin, hlast⟩ := hread u a hget.symm
      exact ⟨request, (if_neg hout).trans horigin, hlast⟩
  · cases ha.symm.trans hget
    exact ⟨request, (if_pos hin).trans hrequest, hcompiler.sourced request artifacts hanswer u made hmade⟩

end Round

namespace Project

/-- The trees that a run can leave, and for every unit the request that its artifact was compiled
for. -/
inductive Course (root : Location) : FileTree → (String → Option CompileRequest) → Prop
  | start {t : FileTree} (wellFormed : t.WellFormed)
      (unbuilt : ∀ u, onDisk? t (artifactsAt root) u = none) : Course root t fun _ => none
  | edit {t t' : FileTree} {origin : String → Option CompileRequest} (before : Course root t origin)
      (edited : Edited root t t') : Course root t' origin
  | opening {t t' : FileTree} {origin : String → Option CompileRequest}
      (before : Course root t origin) {path : Path} {name : Option String} {p : Project}
      (opened : openAt path name t = (.ok p, t')) : Course root t' origin
  | load {t : FileTree} {origin : String → Option CompileRequest} (before : Course root t origin)
      {p : Project} {registry : Registry} {compiler : FileTree → Compiler} {settings : Settings}
      {summary : BuildSummary} (root_eq : p.root = .absolute root)
      (keepsLast : ∀ t, (compiler t).KeepsLast)
      (succeeded : (p.load registry compiler settings t).result = .ok summary) :
      Course root (p.load registry compiler settings t).tree
        (requestAfter origin summary (p.load registry compiler settings t).request?)

section Runs

variable {root : Location} {compiler : FileTree → Compiler} {settings : Settings} {t : FileTree}
  {origin : String → Option CompileRequest} {p : Project} {registry : Registry}
  {summary : BuildSummary}

theorem load_fromLast (ht : t.WellFormed) (hroot : ∀ n ∈ root, IsFileName n)
    (hcompiler : ∀ t, (compiler t).KeepsLast)
    (hdisk : ∀ u a, onDisk? t (artifactsAt root) u = some a → a.FromLast origin u)
    (hp : p.root = .absolute root) (h : (p.load registry compiler settings t).result = .ok summary) :
    let loaded := p.load registry compiler settings t
    let origin' := requestAfter origin summary loaded.request?
    loaded.tree.WellFormed ∧ (∀ u a, loaded.project.store.get? u = some a → a.FromLast origin' u) ∧
      ∀ u a, onDisk? loaded.tree (artifactsAt root) u = some a → a.FromLast origin' u := by
  have hl := isFileName_artifactsAt hroot
  have hhealed := healedAt_wellFormed ht hroot
  obtain ⟨_, htrim⟩ := healedAt_trimmed ht hroot
  obtain ⟨files, inner, hran, hresult, -, -, hinstalled⟩ := load_ok hroot hp h
  have hread : ∀ u a, (readAt root t).get? u = some a → a.FromLast origin u := by
    intro u a ha
    have hfound : (readAt root t).get? u = onDisk? (healedAt root t) (artifactsAt root) u :=
      get?_found ht hl u
    exact hdisk u a (htrim.onDisk?_of_some (hfound.symm.trans ha))
  have hmemory := fun u a => fromLast_of_round (u := u) (a := a) (hcompiler _) hread hresult
  generalize p.load registry compiler settings t = loaded at hran ⊢
  obtain ⟨-, -, -, hstore, htree, hrequest⟩ := hran
  have horigin : requestAfter origin summary loaded.request? =
      requestAfter origin inner (roundAt root (.ofFiles files) compiler settings t).request? := by
    funext u
    rw [requestAfter, requestAfter, hinstalled, hrequest]
  dsimp only
  rw [hstore, htree, horigin]
  refine ⟨rebuild_wellFormed hhealed hl rfl hresult, hmemory, fun u b hb => ?_⟩
  rcases onDisk?_rebuild_cases hhealed hl rfl hresult hb with ⟨-, a, hget, hsame⟩ | ⟨hout, hbefore⟩
  · rw [hsame]
    exact hmemory u a hget
  · obtain ⟨request, hrequest, hlast⟩ := hdisk u b (htrim.onDisk?_of_some hbefore)
    exact ⟨request, (if_neg hout).trans hrequest, hlast⟩

theorem Course.fromLast (hroot : ∀ n ∈ root, IsFileName n) (h : Course root t origin) :
    t.WellFormed ∧ ∀ u a, onDisk? t (artifactsAt root) u = some a → a.FromLast origin u := by
  induction h with
  | start ht hempty => exact ⟨ht, fun u a ha => nomatch (hempty u).symm.trans ha⟩
  | edit _ hedited ih =>
    refine ⟨hedited.wellFormed, fun u a ha => ih.2 u a ?_⟩
    rw [← hedited.onDisk?_eq]
    exact ha
  | opening _ hopen ih =>
    obtain ⟨root', node, made, -, hopened⟩ := openAt_ok ih.1 hopen
    exact ⟨hopened.wellFormed, fun u a ha => ih.2 u a (hopened.onDisk?_of_some ha)⟩
  | load _ hp hcompiler hok ih =>
    obtain ⟨ht, -, hdisk⟩ := load_fromLast ih.1 hroot hcompiler ih.2 hp hok
    exact ⟨ht, hdisk⟩

end Runs

/-- The fingerprint is that of the index's file, but the artifact is that of the last file compiled.
-/
theorem winning_file_built_iff {root : Location} {compiler : FileTree → Compiler}
    {settings : Settings} {t : FileTree} {origin : String → Option CompileRequest} {p : Project}
    {registry : Registry} {summary : BuildSummary} (hroot : ∀ n ∈ root, IsFileName n)
    (hrun : Course root t origin) (hcompiler : ∀ t, (compiler t).KeepsLast)
    (hp : p.root = .absolute root) (h : (p.load registry compiler settings t).result = .ok summary) :
    let loaded := p.load registry compiler settings t
    let sources := loaded.project.sources
    let origin' := requestAfter origin summary loaded.request?
    ∀ u path, sources.path? u = some path →
      (∃ a, loaded.project.store.get? u = some a ∧
        sources.fingerprint? u settings.minifySource = some a.fingerprint ∧ a.FromLast origin' u) ∧
      ((∃ a, loaded.project.store.get? u = some a ∧ a.sourcePath = path) ↔
        ∃ request, origin' u = some request ∧ request.DeclaresLast u path) ∧
      (u ∈ summary.installed → ∀ request, loaded.request? = some request →
        (request.DeclaresLast u path ↔ ∀ other, request.DeclaresIn u other → other = path)) := by
  obtain ⟨ht, hdisk⟩ := hrun.fromLast hroot
  obtain ⟨-, hmemory, -⟩ := load_fromLast ht hroot hcompiler hdisk hp h
  have hkeys : (readAt root t).KeyedByName := keyedByName_found ht (isFileName_artifactsAt hroot)
  obtain ⟨files, inner, hran, hresult, -, -, hinstalled⟩ := load_ok hroot hp h
  generalize p.load registry compiler settings t = loaded at hran hmemory ⊢
  obtain ⟨-, -, hsources, hstore, -, hrequest⟩ := hran
  dsimp only at hmemory ⊢
  rw [hsources]
  intro u path hpath
  have hunit := SourceSet.containsUnit_iff.2 ⟨path, hpath⟩
  obtain ⟨a, ha, hfingerprint⟩ := fingerprint_after_round hkeys (hcompiler _).complete hresult hunit
  rw [← roundAt, ← hstore] at ha
  have hlast := hmemory u a ha
  refine ⟨⟨a, ha, hfingerprint, hlast⟩, ⟨?_, ?_⟩, fun hin request hasked => ?_⟩
  · rintro ⟨b, hb, rfl⟩
    exact hmemory u b hb
  · -- Only one file of a request declares the unit last.
    rintro ⟨request, horigin, hwinner⟩
    obtain ⟨request', horigin', hlast⟩ := hlast
    cases horigin.symm.trans horigin'
    exact ⟨a, ha, hlast.unique hwinner⟩
  · rw [hrequest] at hasked
    rcases get?_rebuild hresult u with ⟨hout, -⟩ | ⟨request', artifacts, b, hsame, hanswer, hb, -, -⟩
    · exact absurd (hinstalled ▸ hin) hout
    · cases hsame.symm.trans hasked
      have hdeclares := ((hcompiler _).sourced request artifacts hanswer u b hb).declared.declares
      rw [roundAt, rebuild_request?] at hasked
      exact CompileRequest.declaresLast_path_iff (request_within hasked) hdeclares hpath

namespace Sample

def doubled : FileTree := write start "M.sol" "contract D \x7b uint b; \x7d contract M \x7b\x7d"

def doubledFiles : List (String × String) :=
  [("contracts/D.sol", "contract D \x7b uint a; \x7d"),
    ("contracts/M.sol", "contract D \x7b uint b; \x7d contract M \x7b\x7d")]

def doubledRound : Rebuilt := round doubledFiles unbuilt doubled

def doubledRequest : CompileRequest := ⟨.ofList doubledFiles, {}⟩

def repaired : FileTree := write doubledRound.tree "D.sol" "contract D \x7b uint c; \x7d"

def repairedFiles : List (String × String) :=
  [("contracts/D.sol", "contract D \x7b uint c; \x7d"),
    ("contracts/M.sol", "contract D \x7b uint b; \x7d contract M \x7b\x7d")]

def repairedRequest : CompileRequest :=
  ⟨.ofList [("contracts/D.sol", "contract D \x7b uint c; \x7d")], {}⟩

def repairedSummary : BuildSummary :=
  { stale := .ofList ["D"], closure := .ofList ["D"], compiledPaths := ["contracts/D.sol"]
    installed := ["D"] }

theorem doubled_after_start : Edited root start doubled :=
  write_edited start_wellFormed (by decide) _

theorem doubled_mirrored : unbuilt.Mirrored (artifactsAt root) doubled :=
  doubled_after_start.mirrored start_mirrored

theorem doubled_round : Leads doubledFiles unbuilt doubled (.ok firstSummary) ∧
    doubledRound.request? = some doubledRequest ∧
    ∃ a ∈ doubledRound.store.get? "D", a.sourcePath = "contracts/M.sol" ∧
      (SourceSet.ofFiles (.ofList doubledFiles)).fingerprint? "D" false = some a.fingerprint := by
  decide +kernel

theorem repaired_after_doubled : Edited root doubledRound.tree repaired :=
  write_edited (doubled_round.1.mirrored doubled_mirrored).wellFormed (by decide) _

theorem repaired_mirrored : (doubledRound.store.over unbuilt).Mirrored (artifactsAt root) repaired :=
  repaired_after_doubled.mirrored (doubled_round.1.mirrored doubled_mirrored)

theorem repaired_round :
    Leads repairedFiles (doubledRound.store.over unbuilt) repaired (.ok repairedSummary) ∧
    (round repairedFiles (doubledRound.store.over unbuilt) repaired).request? =
      some repairedRequest := by
  decide +kernel

theorem Leads.request {files : List (String × String)} {s : Store} {t : FileTree}
    {result : Except ProjectError BuildSummary} (h : Leads files s t result)
    (hs : s.Mirrored (artifactsAt root) t) :
    (project.load {} (fun _ => Compiler.outline) {} t).request? = (round files s t).request? :=
  (load_of_mirrored project {} (fun _ => Compiler.outline) {} names_root rfl rfl rfl hs
    (fun u a ha => h.1 (u, a) (NameMap.get?_eq_some_iff.1 ha)) h.2.1).2.2.2.2.1

theorem Leads.course {t : FileTree} {origin : String → Option CompileRequest}
    {files : List (String × String)} {s : Store} {summary : BuildSummary}
    (h : Leads files s t (.ok summary)) (hs : s.Mirrored (artifactsAt root) t)
    (hrun : Course root t origin) :
    Course root (round files s t).tree (requestAfter origin summary (round files s t).request?) := by
  obtain ⟨-, -, htree, -, hended⟩ := h.load hs
  obtain ⟨discarded, handles, hresult⟩ := hended _ rfl
  have hloaded := hrun.load rfl (fun _ => Compiler.outline_keepsLast) hresult
  rw [htree, h.request hs] at hloaded
  exact hloaded

theorem doubled_course : Course root doubled fun _ => none :=
  (Course.start start_wellFormed start_mirrored.onDisk?_eq).edit doubled_after_start

theorem repaired_course :
    Course root repaired (requestAfter (fun _ => none) firstSummary (some doubledRequest)) := by
  have hrun := doubled_round.1.course doubled_mirrored doubled_course
  rw [← doubledRound, doubled_round.2.1] at hrun
  exact hrun.edit repaired_after_doubled

end Sample

theorem duplicate_stored_for_winner :
    let loaded := Sample.project.load {} (fun _ => Compiler.outline) {} Sample.doubled
    Compiler.outline.KeepsLast ∧ Course Sample.root Sample.doubled (fun _ => none) ∧
    ∃ summary a, loaded.result = .ok summary ∧
      loaded.project.sources.path? "D" = some "contracts/D.sol" ∧
      loaded.project.store.get? "D" = some a ∧ a.sourcePath = "contracts/M.sol" ∧
      loaded.project.sources.fingerprint? "D" false = some a.fingerprint := by
  obtain ⟨hleads, -, a, ha, hpath, hfingerprint⟩ := Sample.doubled_round
  obtain ⟨-, hstore, -, -, hended⟩ := hleads.load Sample.doubled_mirrored
  obtain ⟨discarded, handles, hresult⟩ := hended _ rfl
  have hsources := hleads.sources Sample.doubled_mirrored
  have hwinner : (SourceSet.ofFiles (.ofList Sample.doubledFiles)).path? "D" =
      some "contracts/D.sol" := by decide
  dsimp only
  rw [hsources, hstore]
  exact ⟨Compiler.outline_keepsLast, Sample.doubled_course, _, a, hresult, hwinner, ha, hpath,
    hfingerprint⟩

theorem winning_file_built_after_repair :
    let loaded := Sample.project.load {} (fun _ => Compiler.outline) {} Sample.repaired
    ∃ origin summary, Course Sample.root Sample.repaired origin ∧ loaded.result = .ok summary ∧
      loaded.project.sources.path? "D" = some "contracts/D.sol" ∧
      (∃ a, loaded.project.store.get? "D" = some a ∧ a.sourcePath = "contracts/D.sol") ∧
      loaded.project.sources.path? "M" = some "contracts/M.sol" ∧
      ∃ a, loaded.project.store.get? "M" = some a ∧ a.sourcePath = "contracts/M.sol" := by
  obtain ⟨hleads, hasked⟩ := Sample.repaired_round
  obtain ⟨-, -, -, -, hended⟩ := hleads.load Sample.repaired_mirrored
  obtain ⟨discarded, handles, hresult⟩ := hended _ rfl
  have hsources := hleads.sources Sample.repaired_mirrored
  have hrequest := (hleads.request Sample.repaired_mirrored).trans hasked
  have hbuilt := winning_file_built_iff Sample.names_root Sample.repaired_course
    (fun _ => Compiler.outline_keepsLast) rfl hresult
  have hwinners : (SourceSet.ofFiles (.ofList Sample.repairedFiles)).path? "D" =
        some "contracts/D.sol" ∧
      (SourceSet.ofFiles (.ofList Sample.repairedFiles)).path? "M" = some "contracts/M.sol" := by decide
  have hlast : Sample.repairedRequest.DeclaresLast "D" "contracts/D.sol" ∧
      Sample.doubledRequest.DeclaresLast "M" "contracts/M.sol" := by decide
  generalize Sample.project.load {} (fun _ => Compiler.outline) {} Sample.repaired = loaded
    at hresult hsources hrequest hbuilt ⊢
  dsimp only at hbuilt ⊢
  rw [hsources] at hbuilt ⊢
  rw [hrequest] at hbuilt
  exact ⟨_, _, Sample.repaired_course, hresult, hwinners.1,
    (hbuilt "D" _ hwinners.1).2.1.2 ⟨_, rfl, hlast.1⟩, hwinners.2,
    (hbuilt "M" _ hwinners.2).2.1.2 ⟨_, rfl, hlast.2⟩⟩

end Project
end ContractBuild
