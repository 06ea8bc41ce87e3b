import ContractBuild.CommandLine
import ContractBuild.Proofs.FailedLoads
import ContractBuild.Proofs.OwnNames
import ContractBuild.Proofs.Requests

/-! What the status of a project says and what a build reports. The status lists units, one by one;
a build compiles files, and reports every unit that they declare. -/

namespace ContractBuild

open FileTree ContractBuild.Path Store Project Source

def SourceSet.SharesFile (s : SourceSet) (u v : String) : Prop :=
  ∃ path text, s.path? u = some path ∧ s.files.get? path = some text ∧
    ∃ d ∈ declarations (Text.bytes text), d.name = v

section Units

variable {files : NameMap String} {u v : String}

theorem SourceSet.SharesFile.containsUnit (h : (SourceSet.ofFiles files).SharesFile u v) :
    (SourceSet.ofFiles files).containsUnit v = true := by
  obtain ⟨_, _, -, hfile, _, hd, rfl⟩ := h
  exact SourceSet.containsUnit_of_declared hfile hd

theorem SourceSet.sharesFile_self (h : (SourceSet.ofFiles files).containsUnit u = true) :
    (SourceSet.ofFiles files).SharesFile u u := by
  obtain ⟨path, hpath⟩ := SourceSet.containsUnit_iff.1 h
  obtain ⟨text, hfile, hd⟩ := SourceSet.declared_at_path hpath
  exact ⟨path, text, hpath, hfile, hd⟩

theorem mem_installed_iff {store : Store} {compiler : Compiler} {settings : Settings} {t : FileTree}
    (hexact : compiler.Exact) {summary : BuildSummary}
    (h : (rebuild (.ofFiles files) store compiler settings t).result = .ok summary) :
    summary.isUpToDate = false ∧ v ∈ summary.installed ↔
      ∃ u ∈ rebuildSet (.ofFiles files) store settings, (SourceSet.ofFiles files).SharesFile u v := by
  obtain ⟨-, hclosure, hround⟩ := rebuild_ok h
  rw [hclosure] at hround
  rcases hround with ⟨hnone, hempty, -⟩ | ⟨request, artifacts, hrequest, hanswer, hinstalled, hstored⟩
  · have hno := compileRequest?_eq_none_iff.1 hnone
    rw [hempty]
    refine iff_of_false (fun hin => absurd hin.2 List.not_mem_nil) ?_
    rintro ⟨u, hu, path, _, hpath, -⟩
    rw [hno u hu] at hpath
    cases hpath
  · have hpaths : summary.compiledPaths = request.sources.names := by
      rw [rebuild_of_answer hrequest hanswer hstored] at h
      cases h
      rfl
    rw [hinstalled, NameMap.mem_names_iff, hexact request artifacts hanswer]
    constructor
    · rintro ⟨-, path, text, hfile, hd⟩
      obtain ⟨htext, u, hu, hpath⟩ := (get?_request hrequest).1 hfile
      exact ⟨u, hu, path, text, hpath, htext, hd⟩
    · rintro ⟨u, hu, path, text, hpath, htext, hd⟩
      have hfile := (get?_request hrequest).2 ⟨htext, u, hu, hpath⟩
      -- The file has been compiled, so the summary does not say that all is up to date.
      refine ⟨?_, path, text, hfile, hd⟩
      rw [BuildSummary.isUpToDate, hpaths, List.isEmpty_eq_false_iff]
      exact List.ne_nil_of_mem (NameMap.mem_names_iff.2 (NameMap.contains_iff.2 ⟨text, hfile⟩))

end Units

namespace CommandLine

def reasons : List String :=
  ["not built", "source changed", "compiler version changed", "compiler optimize changed",
    "compiler runs changed", "compiler evmVersion changed", "depends on a changed unit"]

/-- A line says of the unit why it would be compiled. -/
def Lists (r : Run) (u : String) : Prop :=
  ∃ reason ∈ reasons, line (u ++ ": " ++ reason) ∈ r.lines

def Reports (r : Run) (u : String) : Prop := line ("Compiled " ++ u) ∈ r.lines

section Lines

theorem line_inj {a b : String} (h : line a = line b) : a = b := by
  rw [← String.toList_inj, line, line, String.toList_append, String.toList_append,
    List.append_cancel_left_eq] at h
  exact String.toList_inj.1 h

theorem line_append_inj {front a b : String} : line (front ++ a) = line (front ++ b) ↔ a = b := by
  refine ⟨fun h => ?_, fun h => by rw [h]⟩
  have hlists := congrArg String.toList (line_inj h)
  rw [String.toList_append, String.toList_append, List.append_cancel_left_eq] at hlists
  exact String.toList_inj.1 hlists

theorem line_append_ne {a b : String} (ha : a.toList ≠ []) (hb : b.toList ≠ [])
    (hheads : a.toList.head? ≠ b.toList.head?) (rest rest' : String) :
    line (a ++ rest) ≠ line (b ++ rest') := by
  intro h
  have hheads' : (a ++ rest).toList.head? = (b ++ rest').toList.head? := by rw [line_inj h]
  rw [String.toList_append, String.toList_append, List.head?_append_of_ne_nil _ ha,
    List.head?_append_of_ne_nil _ hb] at hheads'
  exact hheads hheads'

theorem message_mem_reasons {s : Staleness} (h : s ≠ .fresh) : s.message ∈ reasons := by
  cases s with
  | fresh => exact absurd rfl h
  | missing => decide
  | sourceChanged => decide
  | settingChanged setting => cases setting <;> decide

theorem unit_of_line {u v reason reason' : String} (hr : reason ∈ reasons) (hr' : reason' ∈ reasons)
    (h : u ++ ": " ++ reason = v ++ ": " ++ reason') : u = v := by
  have hplain : ∀ r ∈ reasons, ':' ∉ (' ' :: r.toList) := by decide
  have hparts : u.toList ++ ':' :: ' ' :: reason.toList = v.toList ++ ':' :: ' ' :: reason'.toList := by
    rw [← String.toList_inj, String.toList_append, String.toList_append, String.toList_append,
      String.toList_append, List.append_assoc, List.append_assoc] at h
    exact h
  -- If one name went on behind the colon of the other line, that colon would stand in a reason.
  have hnone := hplain reason hr
  have hnone' := hplain reason' hr'
  rcases List.append_eq_append_iff.1 hparts with ⟨more, hv, hrest⟩ | ⟨more, hu, hrest⟩
  · cases more with
    | nil => exact String.toList_inj.1 (hv.trans (List.append_nil _)).symm
    | cons c more =>
      have hin := (List.cons.inj hrest).2
      rw [hin] at hnone
      exact absurd (List.mem_append_right more List.mem_cons_self) hnone
  · cases more with
    | nil => exact String.toList_inj.1 (hu.trans (List.append_nil _))
    | cons c more =>
      have hin := (List.cons.inj hrest).2
      rw [hin] at hnone'
      exact absurd (List.mem_append_right more List.mem_cons_self) hnone'

theorem line_ne_of_ending (front : String) {ending u reason : String}
    (hno : ∀ r ∈ reasons, ¬ ending.toList <:+ r.toList ∧ ¬ r.toList <:+ ending.toList)
    (hr : reason ∈ reasons) : line (u ++ ": " ++ reason) ≠ line (front ++ ending) := by
  intro he
  have hending : ending.toList <:+ (front ++ ending).toList := by
    rw [String.toList_append]
    exact List.suffix_append _ _
  have hreason : reason.toList <:+ (front ++ ending).toList := by
    rw [← line_inj he, String.toList_append]
    exact List.suffix_append _ _
  rcases List.suffix_or_suffix_of_suffix hending hreason with hin | hin
  · exact (hno reason hr).1 hin
  · exact (hno reason hr).2 hin

theorem lists_planLines {name : String} {plan : BuildPlan} {tree : FileTree}
    (hstale : ∀ u, plan.stale.contains u = true → u ∈ plan.closure)
    (hfresh : ∀ u s, plan.stale.get? u = some s → s ≠ .fresh) (u : String) :
    Lists { lines := planLines name plan, tree } u ↔ u ∈ plan.closure := by
  rw [Lists, planLines]
  dsimp only
  split
  · rename_i hempty
    refine iff_of_false ?_ (NameSet.isEmpty_iff.1 hempty u)
    rintro ⟨reason, hreason, hline⟩
    rw [List.mem_singleton] at hline
    exact line_ne_of_ending name (by decide) hreason hline
  · have hdepends : ∀ v, v ++ ": depends on a changed unit" =
        v ++ ": " ++ "depends on a changed unit" := by
      intro v
      rw [String.append_assoc]
      rfl
    simp only [List.mem_append, List.mem_map, List.mem_filter, List.mem_singleton]
    constructor
    · rintro ⟨reason, hreason, (⟨e, he, hline⟩ | ⟨v, ⟨hv, -⟩, hline⟩) | hline⟩
      · have hget := NameMap.get?_eq_some_iff.2 he
        have hsame := unit_of_line (message_mem_reasons (hfresh _ _ hget)) hreason (line_inj hline)
        exact hsame ▸ hstale e.1 (NameMap.contains_iff.2 ⟨e.2, hget⟩)
      · rw [hdepends] at hline
        exact unit_of_line (by decide) hreason (line_inj hline) ▸ hv
      · exact absurd hline (line_ne_of_ending _ (by decide) hreason)
    · -- A unit of the closure is stale itself, or it goes with one that is.
      intro hu
      cases hget : plan.stale.get? u with
      | some s =>
        exact ⟨s.message, message_mem_reasons (hfresh u s hget),
          Or.inl (Or.inl ⟨(u, s), NameMap.get?_eq_some_iff.1 hget, rfl⟩)⟩
      | none =>
        refine ⟨"depends on a changed unit", by decide, Or.inl (Or.inr ⟨u, ⟨hu, ?_⟩, ?_⟩)⟩
        · rw [NameMap.contains_eq_false_iff.2 hget]
          rfl
        · rw [hdepends]

theorem line_mem_summaryLines {project : String} {verbose : Bool} {s : BuildSummary}
    {front : String} (hne : front.toList ≠ [])
    (hfront : front.toList.head? ∉ [some 'B', some 'U', some ' ', some 'F']) (rest : String) :
    line (front ++ rest) ∈ line ("Building " ++ project) :: summaryLines verbose s ↔
      (∃ path ∈ s.discarded, line ("Discarded " ++ path.text) = line (front ++ rest)) ∨
        s.isUpToDate = false ∧ ∃ u ∈ s.installed, line ("Compiled " ++ u) = line (front ++ rest) := by
  have hother : ∀ a ∈ ["Building ", "Up to date", "  from ", "Finished "], ∀ more,
      line (front ++ rest) ≠ line (a ++ more) := by
    intro a ha more
    have hheads : ∀ a ∈ ["Building ", "Up to date", "  from ", "Finished "],
        a.toList ≠ [] ∧ a.toList.head? ∈ [some 'B', some 'U', some ' ', some 'F'] := by decide
    obtain ⟨hne', hhead⟩ := hheads a ha
    exact line_append_ne hne hne' (fun he => hfront (he ▸ hhead)) rest more
  have hbuilding := hother "Building " (by decide) project
  have huptodate : line (front ++ rest) ≠ line "Up to date" := hother "Up to date" (by decide) ""
  have hfrom : ∀ path, line ("  from " ++ path) ≠ line (front ++ rest) :=
    fun path => (hother "  from " (by decide) path).symm
  have hfinished : ∀ n m : String, line (front ++ rest) ≠
      line ("Finished " ++ n ++ " unit(s) recompiled, " ++ m ++ " deployable") := by
    intro n m
    rw [String.append_assoc, String.append_assoc, String.append_assoc]
    exact hother "Finished " (by decide) _
  simp only [summaryLines, List.mem_cons, List.mem_append, List.mem_map, hbuilding, hfinished,
    List.not_mem_nil, false_or, or_false]
  refine or_congr_right ?_
  cases s.isUpToDate with
  | true => simp [huptodate]
  | false => cases verbose <;> simp [hfrom]

theorem reports_summaryLines {project : String} {verbose : Bool} {s : BuildSummary}
    {tree : FileTree} (u : String) :
    Reports { lines := line ("Building " ++ project) :: summaryLines verbose s, tree } u ↔
      s.isUpToDate = false ∧ u ∈ s.installed := by
  have hdiscarded : ∀ text, line ("Discarded " ++ text) ≠ line ("Compiled " ++ u) :=
    fun text => line_append_ne (by decide) (by decide) (by decide) text u
  rw [Reports, line_mem_summaryLines (by decide) (by decide)]
  simp only [hdiscarded, line_append_inj, and_false, exists_false, false_or, exists_eq_right]

end Lines

section Commands

variable {project : Option String} {verbose : Bool} {compiler : String} {overrides : Overrides}
  {programs : Programs} {t t' : FileTree} {path : Path} {config : Config} {command : Command}
  {p : Project} {summary : BuildSummary}

theorem build_of_load (hroot : rootAndConfig project t = .ok (path, config))
    (hcommand : Command.ofText? compiler = some command)
    (hopen : openAt path config.name t = (.ok p, t'))
    (hload : (p.load {} (command.compiler programs) (overrides.apply config.settings) t').result =
      .ok summary) :
    build project verbose compiler overrides programs t =
      { lines := line ("Building " ++ (p.name ++ (" (" ++ (p.root.text ++ ")")))) ::
          summaryLines verbose summary,
        tree := (p.load {} (command.compiler programs) (overrides.apply config.settings) t').tree } := by
  rw [build_eq_buildWith hroot, buildWith, hcommand]
  dsimp only
  rw [hopen]
  dsimp only
  rw [hload, String.append_assoc, String.append_assoc, String.append_assoc]

theorem build_ok (hroot : rootAndConfig project t = .ok (path, config))
    (h : (build project verbose compiler overrides programs t).failure? = none) :
    ∃ command p t' summary, Command.ofText? compiler = some command ∧
      openAt path config.name t = (.ok p, t') ∧
      (p.load {} (command.compiler programs) (overrides.apply config.settings) t').result =
        .ok summary := by
  rw [build_eq_buildWith hroot, buildWith] at h
  cases hcommand : Command.ofText? compiler with
  | none =>
    rw [hcommand] at h
    cases h
  | some command =>
    rw [hcommand] at h
    dsimp only at h
    rcases hopen : openAt path config.name t with ⟨_ | p, t'⟩
    · rw [hopen] at h
      cases h
    · rw [hopen] at h
      dsimp only at h
      cases hload : (p.load {} (command.compiler programs) (overrides.apply config.settings)
          t').result with
      | error e =>
        rw [hload] at h
        cases h
      | ok summary => exact ⟨command, p, t', summary, rfl, rfl, hload⟩

theorem reports_build_iff {root : Location} {node : Node} (ht : t.WellFormed)
    (hroot : rootAndConfig project t = .ok (path, config)) (hfind : t.find path = .ok (root, node))
    (hout : Outside (.absolute root) (artifactsAt root) t)
    (hexact : ∀ command, Command.ofText? compiler = some command →
      ∀ t, (command.compiler programs t).Exact)
    (hbuild : (build project verbose compiler overrides programs t).failure? = none) :
    ∃ files, SourceSet.scan (.absolute root) t = .ok (.ofFiles files) ∧
      ∀ u, Reports (build project verbose compiler overrides programs t) u ↔
        ∃ v ∈ rebuildSet (.ofFiles files) (inspected (.absolute root) (artifactsAt root) t)
          (overrides.apply config.settings), (SourceSet.ofFiles files).SharesFile v u := by
  obtain ⟨command, p, t', summary, hcommand, hopen, hload⟩ := build_ok hroot hbuild
  obtain ⟨root', node', made, hfind', hopened⟩ := openAt_ok ht hopen
  cases hfind.symm.trans hfind'
  -- What the load finds once the project is open is what an inspection finds before.
  have hscan := hopened.scan_before ht
  have hclosure := (hopened.stale_eq ht hout (overrides.apply config.settings)).2
  have hafter := hopened.scan
  obtain ⟨files, hfiles⟩ := SourceSet.scan_ok hscan
  rw [hfiles] at hscan hafter hclosure
  refine ⟨files, hscan, fun u => ?_⟩
  obtain ⟨-, hfailed, hended⟩ := load_of_round {} (command.compiler programs)
    (overrides.apply config.settings) hopened.names hopened.root_eq hopened.idle rfl hafter
  rw [build_of_load hroot hcommand hopen hload, reports_summaryLines, ← hclosure]
  cases hround : (roundAt root (.ofFiles files) (command.compiler programs)
      (overrides.apply config.settings) t').result with
  | error e => cases hload.symm.trans (hfailed e hround)
  | ok inner =>
    obtain ⟨_, _, hsummary⟩ := hended inner hround
    cases hload.symm.trans hsummary
    show inner.isUpToDate = false ∧ u ∈ inner.installed ↔ _
    exact mem_installed_iff (hexact command hcommand _) hround

theorem lists_status_iff {root : Location} {node : Node} {sources : SourceSet} (ht : t.WellFormed)
    (hroot : rootAndConfig project t = .ok (path, config)) (hfind : t.find path = .ok (root, node))
    (hscan : SourceSet.scan (.absolute root) t = .ok sources) :
    (status project overrides t).failure? = none ∧ (status project overrides t).tree = t ∧
      ∀ u, Lists (status project overrides t) u ↔ u ∈ rebuildSet sources
        (inspected (.absolute root) (artifactsAt root) t) (overrides.apply config.settings) := by
  have hnames := ht.names (find_eq_ok_iff.1 hfind).2
  obtain ⟨store, hstore⟩ : ∃ store, inspected (.absolute root) (artifactsAt root) t = store :=
    ⟨_, rfl⟩
  have hlooked := inspectAt_eq config.name hnames hfind hscan
  rw [hstore] at hlooked ⊢
  obtain ⟨name, hstatus⟩ : ∃ name, status project overrides t =
      { lines := planLines name ⟨staleReasons sources store (overrides.apply config.settings),
          rebuildSet sources store (overrides.apply config.settings)⟩, tree := t } := by
    rw [status_eq_statusWith hroot, statusWith, hlooked]
    dsimp only [bind, Except.bind]
    rw [plan_eq hscan]
    exact ⟨_, rfl⟩
  rw [hstatus]
  refine ⟨rfl, rfl, lists_planLines (fun u hu => ?_) fun u s hs => (get?_staleReasons.1 hs).2.2⟩
  rw [← NameMap.mem_nameSet, nameSet_staleReasons] at hu
  exact subset_close (hstore ▸ keyedByName_inspected ht hnames) hu

theorem build_of_answer {root : Location} {node : Node} {files : NameMap String} {s : Store}
    {request : CompileRequest} {artifacts : NameMap Artifact}
    (hroot : rootAndConfig project t = .ok (path, config))
    (hcommand : Command.ofText? compiler = some command) (hfind : t.find path = .ok (root, node))
    (hmade : makeDirectories (.absolute root) t directories = (.ok (), t))
    (hs : s.Mirrored (artifactsAt root) t)
    (hsources : ∀ u a, s.get? u = some a →
      t.pathExists ((Path.absolute root).joinText a.sourcePath) = true)
    (hscan : SourceSet.scan (.absolute root) t = .ok (.ofFiles files))
    (hrequest : compileRequest? (.ofFiles files) (overrides.apply config.settings)
      (rebuildSet (.ofFiles files) s (overrides.apply config.settings)) = some request)
    (hanswer : command.compiler programs t request = .ok artifacts)
    (hinstall : ((keptStore (.ofFiles files) s (overrides.apply config.settings)).install
      (.ofFiles files) (overrides.apply config.settings).minifySource t artifacts.entries).1 =
        .ok ()) :
    (build project verbose compiler overrides programs t).failure? = none := by
  have hnames := hs.wellFormed.names (find_eq_ok_iff.1 hfind).2
  obtain ⟨hread, hleft⟩ := readAt_of_mirrored hnames hs hsources
  have hopened := openAt_eq config.name hnames hfind hmade (by rw [hleft]; exact hscan)
  rw [hread, hleft] at hopened
  obtain ⟨p, hopen, hat, hidle⟩ : ∃ p, openAt path config.name t = (.ok p, t) ∧
      p.root = .absolute root ∧ p.isActive = false := ⟨_, hopened, rfl, rfl⟩
  rcases hstored : (keptStore (.ofFiles files) s (overrides.apply config.settings)).install
    (.ofFiles files) (overrides.apply config.settings).minifySource t artifacts.entries with
    ⟨result, store, left⟩
  rw [hstored] at hinstall
  cases hinstall
  have hround := congrArg Rebuilt.result (rebuild_of_answer hrequest hanswer hstored)
  obtain ⟨-, -, -, -, -, -, hended⟩ := load_of_mirrored p {} (command.compiler programs)
    (overrides.apply config.settings) hnames hat hidle rfl hs hsources hscan
  obtain ⟨_, _, hload⟩ := hended _ hround
  rw [build_of_load hroot hcommand hopen hload]

end Commands

/-- A build reports whole files, and the status lists undeclared units as well. -/
theorem status_lists_compiled_iff {project : Option String} {verbose : Bool} {compiler : String}
    {overrides : Overrides} {programs : Programs} {t : FileTree} {path : Path} {config : Config}
    {root : Location} {node : Node} (ht : t.WellFormed)
    (hroot : rootAndConfig project t = .ok (path, config)) (hfind : t.find path = .ok (root, node))
    (hout : Outside (.absolute root) (artifactsAt root) t)
    (hexact : ∀ command, Command.ofText? compiler = some command →
      ∀ t, (command.compiler programs t).Exact)
    (hbuild : (build project verbose compiler overrides programs t).failure? = none) :
    ∃ sources, SourceSet.scan (.absolute root) t = .ok sources ∧
      let closure := rebuildSet sources (inspected (.absolute root) (artifactsAt root) t)
        (overrides.apply config.settings)
      let told := status project overrides t
      let built := build project verbose compiler overrides programs t
      told.failure? = none ∧ told.tree = t ∧
      (∀ u, Lists told u ↔ u ∈ closure) ∧
      (∀ u, Reports built u ↔ ∃ v ∈ closure, sources.SharesFile v u) ∧
      ((∀ u, Lists told u ↔ Reports built u) ↔
        ∀ u ∈ closure, sources.containsUnit u = true ∧
          ∀ v, sources.SharesFile u v → v ∈ closure) := by
  obtain ⟨files, hscan, hreports⟩ := reports_build_iff ht hroot hfind hout hexact hbuild
  obtain ⟨hfine, hleft, hlists⟩ := lists_status_iff ht hroot hfind hscan
  refine ⟨_, hscan, hfine, hleft, hlists, hreports, ?_⟩
  simp only [hlists, hreports]
  generalize rebuildSet (.ofFiles files) (inspected (.absolute root) (artifactsAt root) t)
    (overrides.apply config.settings) = closure
  constructor
  · intro hagree u hu
    obtain ⟨v, hv, hshared⟩ := (hagree u).1 hu
    exact ⟨hshared.containsUnit, fun w hw => (hagree w).2 ⟨u, hu, hw⟩⟩
  · intro hwhole u
    constructor
    · exact fun hu => ⟨u, hu, SourceSet.sharesFile_self (hwhole u hu).1⟩
    · rintro ⟨v, hv, hshared⟩
      exact (hwhole v hv).2 u hshared

namespace SampleRuns

open Project.Sample SampleOutputs

def built (t : FileTree) (request : CompileRequest) (output : String) : Run :=
  build (some "/p") false "cc" {} (.knowing request output) t

def told (t : FileTree) : Run := status (some "/p") {} t

def startRequest : CompileRequest := ⟨.ofList startFiles, {}⟩

def pairText : String :=
  "\x7b\"D\":\x7b\"abi\":null,\"bytecode\":\"00\",\"compiler\":[\"1\",true,1]," ++
    "\"dependencies\":[],\"sourcePath\":\"D\"\x7d,\"M\":\x7b\"abi\":null,\"bytecode\":\"00\"," ++
    "\"compiler\":[\"1\",true,1],\"dependencies\":[],\"sourcePath\":\"D\"\x7d\x7d"

theorem parsed_pair : Json.ofBytes? (Text.bytes pairText) =
    some (.object [("D", .object quiet), ("M", .object quiet)]) :=
  (Json.ofBytes?_bytes _).trans (by decide +kernel)

def answered (members : List (String × Json)) : NameMap Artifact :=
  (Compiler.outputArtifacts {} members).toOption.getD {}

theorem answer_pair : ({ output := Text.bytes pairText } : ProgramOutput).answer =
    .ok (answered [("D", .object quiet), ("M", .object quiet)]) :=
  (Compiler.answer_of_object parsed_pair).trans (by decide +kernel)

theorem answer_quiet : ({ output := Text.bytes quietText } : ProgramOutput).answer =
    .ok (answered [("D", .object quiet)]) :=
  (Compiler.answer_of_object parsed_quiet).trans (by decide +kernel)

theorem root_start : rootAndConfig (some "/p") start = .ok (.absolute root, {}) := by decide

theorem root_edited : rootAndConfig (some "/p") edited = .ok (.absolute root, {}) := by
  decide +kernel

theorem command_cc : Command.ofText? "cc" = some ⟨"cc", []⟩ := by decide

theorem answer_known {request : CompileRequest} {output : String} {artifacts : NameMap Artifact}
    (h : ({ output := Text.bytes output } : ProgramOutput).answer = .ok artifacts)
    (command : Command) (t : FileTree) :
    command.compiler (.knowing request output) t request = .ok artifacts := by
  rw [Programs.knowing_compiler, if_pos rfl, h]

theorem built_start : (built start startRequest pairText).failure? = none :=
  build_of_answer root_start command_cc find_start start_directories start_mirrored
    (fun u a ha => first_leads.1 (u, a) (NameMap.get?_eq_some_iff.1 ha)) first_leads.2.1 (by decide)
    (answer_known answer_pair _ _) (by decide +kernel)

theorem built_edited : (built edited editedRequest quietText).failure? = none :=
  build_of_answer root_edited command_cc find_edited edited_directories edited_mirrored edited_sources
    second_leads.2.1 (by decide +kernel) (answer_known answer_quiet _ _) (by decide +kernel)

theorem exact_start (command : Command) (t : FileTree) :
    (command.compiler (.knowing startRequest pairText) t).Exact := by
  have hunits : startRequest.units = ["D", "M"] := by decide
  refine Programs.knowing_exact answer_pair (fun u => ?_) command t
  rw [Compiler.names_answer parsed_pair answer_pair, hunits]
  rfl

theorem exact_edited (command : Command) (t : FileTree) :
    (command.compiler (.knowing editedRequest quietText) t).Exact := by
  have hunits : editedRequest.units = ["D"] := by decide
  refine Programs.knowing_exact answer_quiet (fun u => ?_) command t
  rw [Compiler.names_answer parsed_quiet answer_quiet, hunits]
  rfl

end SampleRuns

open Project.Sample SampleOutputs SampleRuns in
theorem status_lists_compiled_at_start :
    Lists (told start) "M" ∧
      ∀ u, Lists (told start) u ↔ Reports (built start startRequest pairText) u := by
  have hout : Outside (.absolute root) (artifactsAt root) start := start_mirrored.outside _ (by decide)
  obtain ⟨sources, hscan, -, -, hlists, -, hagree⟩ :=
    status_lists_compiled_iff start_wellFormed root_start find_start hout
      (fun command _ => exact_start command) built_start
  cases hscan.symm.trans first_leads.2.1
  rw [← entries_readAt_eq_inspected start_wellFormed names_root hout,
    first_leads.readAt start_mirrored] at hlists hagree
  have hclosure : rebuildSet (.ofFiles (.ofList startFiles)) unbuilt {} = .ofList ["D", "M"] :=
    (rebuild_ok first_leads.2.2).2.1.symm
  have hunits : (SourceSet.ofFiles (.ofList startFiles)).units.names = ["D", "M"] := by decide
  have hdeclared : ∀ u, u ∈ NameSet.ofList ["D", "M"] ↔
      (SourceSet.ofFiles (.ofList startFiles)).containsUnit u = true := by
    intro u
    rw [NameSet.mem_ofList, SourceSet.containsUnit, ← NameMap.mem_names_iff, hunits]
  refine ⟨(hlists "M").2 ?_, hagree.2 ?_⟩
  · show "M" ∈ rebuildSet (.ofFiles (.ofList startFiles)) unbuilt {}
    rw [hclosure]
    decide
  · show ∀ u ∈ rebuildSet (.ofFiles (.ofList startFiles)) unbuilt {}, _ ∧ ∀ v, _ →
      v ∈ rebuildSet (.ofFiles (.ofList startFiles)) unbuilt {}
    rw [hclosure]
    exact fun u hu => ⟨(hdeclared u).1 hu, fun v hv => (hdeclared v).2 hv.containsUnit⟩

open Project.Sample SampleOutputs SampleRuns in
theorem status_lists_undeclared_unit :
    edited.WellFormed ∧ Outside (.absolute root) (artifactsAt root) edited ∧
    (∀ command t, (Command.compiler (.knowing editedRequest quietText) command t).Exact) ∧
    (built edited editedRequest quietText).failure? = none ∧
    Lists (told edited) "M" ∧ ¬ Reports (built edited editedRequest quietText) "M" := by
  have ht := edited_mirrored.wellFormed
  have hread := entries_readAt_eq_inspected ht names_root edited_outside
  rw [readAt_edited.1] at hread
  refine ⟨ht, edited_outside, exact_edited, built_edited, ?_, ?_⟩
  · have hclosure : rebuildSet (.ofFiles (.ofList editedFiles)) (firstRound.store.over unbuilt) {} =
        .ofList ["D", "M"] := (rebuild_ok second_leads.2.2).2.1.symm
    obtain ⟨-, -, hlists⟩ := lists_status_iff ht root_edited find_edited second_leads.2.1
    rw [← hread] at hlists
    refine (hlists "M").2 ?_
    show "M" ∈ rebuildSet (.ofFiles (.ofList editedFiles)) (firstRound.store.over unbuilt) {}
    rw [hclosure]
    decide
  · obtain ⟨files, hscan, hreports⟩ := reports_build_iff ht root_edited find_edited edited_outside
      (fun command _ => exact_edited command) built_edited
    have hfiles := Except.ok.inj (hscan.symm.trans second_leads.2.1)
    rw [hfiles] at hreports
    intro hreport
    obtain ⟨v, -, hshared⟩ := (hreports "M").1 hreport
    exact absurd hshared.containsUnit (by decide)

end CommandLine
end ContractBuild
