import ContractBuild.Artifact.Reading
import ContractBuild.Artifact.Written
import ContractBuild.Proofs.JsonText
import ContractBuild.Proofs.Names

/-! What the text of an artifact reads as: the artifact itself, but for JSON of its own in the interface
and the metadata that is not read back. -/

namespace ContractBuild

namespace Digest

theorem octet?_hexPair (b : UInt8) :
    octet? (hexDigit (b.toNat / 16)) (hexDigit (b.toNat % 16)) = some b := by
  have hvalue : ∀ n, n < 16 → hexValue? (hexDigit n) = some n ∧ hexDigit n ≠ '+' := by decide
  have hb : b.toNat < 256 := b.toNat_lt
  have hhigh := hvalue (b.toNat / 16) (by omega)
  have hlow := hvalue (b.toNat % 16) (by omega)
  have hsum : 16 * (b.toNat / 16) + b.toNat % 16 = b.toNat := by omega
  simp only [octet?, hlow.1, hhigh.1, hhigh.2, if_false]
  show some (UInt8.ofNat (16 * (b.toNat / 16) + b.toNat % 16)) = some b
  rw [hsum, UInt8.ofNat_toNat]

theorem octets?_flatMap (l : List UInt8) : octets? (l.flatMap hexPair) = some l := by
  induction l with
  | nil => rfl
  | cons b rest ih =>
    rw [List.flatMap_cons, hexPair]
    show octets? (_ :: _ :: rest.flatMap hexPair) = _
    rw [octets?, octet?_hexPair, ih]
    rfl

theorem parse?_hex (d : Digest) : parse? d.hex = some d := by
  rw [parse?, hex, String.toList_ofList, octets?_flatMap]
  exact dif_pos d.length_eq

end Digest

theorem ArtifactKind.ofLabel?_label (k : ArtifactKind) : ofLabel? k.label = some k := by
  cases k
  · decide
  · decide
  · decide

namespace Json

theorem reread_integer {n : Nat} (hn : n < wordBound) :
    reread (.integer n) = some (.integer n) := by
  rw [reread, toList_toString_ofNat, numberOf?, numberFront_unsigned (.toDigits n),
    number?_toDigits false hn]
  rfl

theorem depth_string (s : String) : (Json.string s).depth = 0 := by
  simp [Json.depth]

theorem rereadItems_strings (l : List String) :
    rereadItems (l.map .string) = some (l.map .string) := by
  induction l with
  | nil => rfl
  | cons s rest ih =>
    rw [List.map_cons, rereadItems, ih]
    rfl

theorem rereadMembers_cons {x y : Json} (h : reread x = some y) (k : String)
    (ms : List (String × Json)) :
    rereadMembers ((k, x) :: ms) = (rereadMembers ms).map ((k, y) :: ·) := by
  rw [rereadMembers, h]
  cases rereadMembers ms with
  | none => rfl
  | some ys => rfl

theorem rereadMembers_append {l m : List (String × Json)} :
    rereadMembers (l ++ m) = (rereadMembers l).bind fun x => (rereadMembers m).map (x ++ ·) := by
  induction l with
  | nil =>
    rw [List.nil_append, rereadMembers]
    exact Option.map_id'.symm
  | cons e rest ih =>
    obtain ⟨k, x⟩ := e
    rw [List.cons_append, rereadMembers, rereadMembers, ih]
    cases reread x with
    | none => rfl
    | some y =>
      cases rereadMembers rest with
      | none => rfl
      | some ys =>
        cases rereadMembers m with
        | none => rfl
        | some zs => rfl

theorem reread_object {members found : List (String × Json)}
    (h : rereadMembers members = some found) (hfound : found.Pairwise fun a b => a.1 < b.1) :
    reread (.object members) = some (.object found) := by
  have hentries := congrArg NameMap.entries (NameMap.ofList_entries ⟨found, hfound⟩)
  rw [reread, h, Option.map_some, hentries]

end Json

section Settings

theorem RecordedSettings.reread_toJson (s : RecordedSettings) :
    s.toJson.reread = some s.toJson := by
  have hruns : Json.reread (.integer s.runs.toNat) = some (.integer s.runs.toNat) :=
    Json.reread_integer (Nat.lt_trans s.runs.toNat_lt (by decide))
  have hevm : Json.reread ((s.evmVersion.map .string).getD .null) =
      some ((s.evmVersion.map .string).getD .null) := by
    cases s.evmVersion with
    | none => rfl
    | some v => rfl
  have hnames : ["evmVersion", "optimize", "runs", "version"].Pairwise (· < ·) := by decide
  refine Json.reread_object ?_ (List.pairwise_map.1 hnames)
  rw [Json.rereadMembers_cons hevm, Json.rereadMembers_cons rfl, Json.rereadMembers_cons hruns,
    Json.rereadMembers_cons rfl]
  rfl

theorem Reader.member_of_lookup {α : Type} {members : List (String × Json)} {key : String} {j : Json}
    (h : members.lookup key = some j) {read : Reader α} {a : α} (hread : read j = .ok a) :
    Reader.member members key read = .ok (some a) := by
  rw [Reader.member, h]
  show some <$> read j = _
  rw [hread]
  rfl

theorem Reader.settings_toJson (s : RecordedSettings) : Reader.settings s.toJson = .ok s := by
  obtain ⟨version, optimize, runs, evmVersion⟩ := s
  have hruns : Reader.count (.integer runs.toNat) = .ok runs := by
    have hlt : runs.toNat < 4294967296 := runs.toNat_lt
    have hcount : Count.ofInt? runs.toNat = some runs := by
      rw [Count.ofInt?, Count.bound, if_pos (by omega)]
      simp
    rw [Reader.count, hcount]
  have hevm : Reader.orNull Reader.text ((evmVersion.map .string).getD .null) = .ok evmVersion := by
    cases evmVersion with
    | none => rfl
    | some v => rfl
  have hoptimize : Reader.boolean (.bool optimize) = .ok optimize := rfl
  have hversion : Reader.text (.string version) = .ok version := rfl
  rw [RecordedSettings.toJson, Reader.settings, Reader.member_of_lookup rfl hevm,
    Reader.member_of_lookup rfl hoptimize, Reader.member_of_lookup rfl hruns,
    Reader.member_of_lookup rfl hversion]
  rfl

end Settings

namespace Reader

theorem mapM_text (l : List String) : (l.map Json.string).mapM text = .ok l := by
  induction l with
  | nil => rfl
  | cons s rest ih =>
    rw [List.map_cons, List.mapM_cons, ih]
    rfl

theorem names_strings (s : NameSet) : names (.array (s.names.map .string)) = .ok s := by
  rw [names, mapM_text]
  show Except.ok (NameSet.ofList s.names) = _
  rw [NameSet.ofList_names]

theorem digest_hex (d : Digest) : digest (.string d.hex) = .ok d := by
  unfold digest
  dsimp only [text, bind, Except.bind]
  rw [Digest.parse?_hex]
  rfl

theorem kind_label (k : ArtifactKind) : kind (.string k.label) = .ok k := by
  rw [kind, knownKind, ArtifactKind.ofLabel?_label]

end Reader

namespace Artifact

def members (a : Artifact) (abi : Json) (metadata : List (String × Json)) : List (String × Json) :=
  [("abi", abi), ("bytecode", .string a.bytecode), ("compiler", a.compiler.toJson),
    ("contractName", .string a.name),
    ("dependencies", .array (a.dependencies.names.map .string)),
    ("deployedBytecode", .string a.deployedBytecode),
    ("fingerprint", .string a.fingerprint.hex)] ++ metadata ++
  [("sourcePath", .string a.sourcePath), ("type", .string a.kind.label)]

theorem toJson_eq (a : Artifact) : a.toJson = .object (a.members a.abi a.metadataMember) := rfl

theorem ofMembers_members (a : Artifact) (abi : Json) {more : List (String × Json)}
    {metadata : Option Json}
    (hmore : Reader.member (a.members abi more) "metadata" .ok = .ok metadata)
    (hpath : (a.members abi more).lookup "sourcePath" = some (.string a.sourcePath))
    (hlabel : (a.members abi more).lookup "type" = some (.string a.kind.label)) :
    ofMembers (a.members abi more) = .ok { a with abi, metadata := metadata.getD .null } := by
  have htext : ∀ s, Reader.text (.string s) = .ok s := fun _ => rfl
  have habi : Reader.member (a.members abi more) "abi" .ok = .ok (some abi) := rfl
  rw [ofMembers, habi, Reader.member_of_lookup rfl (htext a.bytecode),
    Reader.member_of_lookup rfl (Reader.settings_toJson a.compiler),
    Reader.member_of_lookup rfl (htext a.name),
    Reader.member_of_lookup rfl (Reader.names_strings a.dependencies),
    Reader.member_of_lookup rfl (htext a.deployedBytecode),
    Reader.member_of_lookup rfl (Reader.digest_hex a.fingerprint), hmore,
    Reader.member_of_lookup hpath (htext a.sourcePath),
    Reader.member_of_lookup hlabel (Reader.kind_label a.kind)]
  rfl

inductive MetadataMember : Json → List (String × Json) → Prop where
  | absent : MetadataMember .null []
  | present (metadata : Json) : MetadataMember metadata [("metadata", metadata)]

theorem ofJson_members (a : Artifact) (abi : Json) {metadata : Json} {more : List (String × Json)}
    (h : MetadataMember metadata more) :
    ofJson (.object (a.members abi more)) = .ok { a with abi, metadata } := by
  cases h with
  | absent =>
    show (ofMembers (a.members abi [])).mapError ReadError.field = _
    rw [ofMembers_members a abi rfl rfl rfl]
    rfl
  | present =>
    show (ofMembers (a.members abi [("metadata", metadata)])).mapError ReadError.field = _
    rw [ofMembers_members a abi rfl rfl rfl]
    rfl

theorem rereadMembers_members (a : Artifact) (abi : Json) (more : List (String × Json)) :
    Json.rereadMembers (a.members abi more) = abi.reread.bind fun j =>
      (Json.rereadMembers more).map (a.members j) := by
  cases habi : abi.reread with
  | none =>
    rw [members, List.append_assoc, List.cons_append, Json.rereadMembers, habi]
    rfl
  | some j =>
    have hfront : Json.rereadMembers [("abi", abi), ("bytecode", .string a.bytecode),
        ("compiler", a.compiler.toJson), ("contractName", .string a.name),
        ("dependencies", .array (a.dependencies.names.map .string)),
        ("deployedBytecode", .string a.deployedBytecode),
        ("fingerprint", .string a.fingerprint.hex)] =
        some [("abi", j), ("bytecode", .string a.bytecode),
          ("compiler", a.compiler.toJson), ("contractName", .string a.name),
          ("dependencies", .array (a.dependencies.names.map .string)),
          ("deployedBytecode", .string a.deployedBytecode),
          ("fingerprint", .string a.fingerprint.hex)] := by
      have hdependencies : Json.reread (.array (a.dependencies.names.map .string)) =
          some (.array (a.dependencies.names.map .string)) := by
        rw [Json.reread, Json.rereadItems_strings]
        rfl
      rw [Json.rereadMembers_cons habi, Json.rereadMembers_cons rfl,
        Json.rereadMembers_cons a.compiler.reread_toJson, Json.rereadMembers_cons rfl,
        Json.rereadMembers_cons hdependencies, Json.rereadMembers_cons rfl,
        Json.rereadMembers_cons rfl]
      rfl
    have hback : Json.rereadMembers [("sourcePath", .string a.sourcePath),
        ("type", .string a.kind.label)] = some [("sourcePath", .string a.sourcePath),
          ("type", .string a.kind.label)] := by
      rw [Json.rereadMembers_cons rfl, Json.rereadMembers_cons rfl]
      rfl
    rw [members, Json.rereadMembers_append, Json.rereadMembers_append, hfront, hback]
    cases Json.rereadMembers more with
    | none => rfl
    | some found => rfl

theorem metadataMember_spec (a : Artifact) : MetadataMember a.metadata a.metadataMember := by
  rw [metadataMember]
  split
  · rename_i h
    rw [h]
    exact .absent
  · exact .present a.metadata

theorem MetadataMember.reread {metadata : Json} {more : List (String × Json)}
    (h : MetadataMember metadata more) :
    (metadata.reread = none ∧ Json.rereadMembers more = none) ∨
      ∃ m found, metadata.reread = some m ∧ Json.rereadMembers more = some found ∧
        MetadataMember m found := by
  cases h with
  | absent => exact Or.inr ⟨.null, [], rfl, rfl, .absent⟩
  | present =>
    cases hm : metadata.reread with
    | none =>
      refine Or.inl ⟨rfl, ?_⟩
      rw [Json.rereadMembers, hm]
    | some m =>
      refine Or.inr ⟨m, [("metadata", m)], rfl, ?_, .present m⟩
      rw [Json.rereadMembers_cons hm]
      rfl

theorem members_ascending (a : Artifact) (abi : Json) {metadata : Json}
    {more : List (String × Json)} (h : MetadataMember metadata more) :
    (a.members abi more).Pairwise fun a b => a.1 < b.1 := by
  refine List.pairwise_map.1 (?_ : ((a.members abi more).map Prod.fst).Pairwise (· < ·))
  cases h with
  | absent =>
    have hnames : ["abi", "bytecode", "compiler", "contractName", "dependencies",
        "deployedBytecode", "fingerprint", "sourcePath", "type"].Pairwise (· < ·) := by decide
    exact hnames
  | present =>
    have hnames : ["abi", "bytecode", "compiler", "contractName", "dependencies",
        "deployedBytecode", "fingerprint", "metadata", "sourcePath", "type"].Pairwise (· < ·) := by
      decide
    exact hnames

theorem ofText_canonicalText (a : Artifact) : ofText a.canonicalText =
    if a.toJson.depth ≤ Json.maxDepth then
      match a.abi.reread, a.metadata.reread with
      | some abi, some metadata => .ok { a with abi, metadata }
      | _, _ => .error .notJson
    else .error .notJson := by
  have hends : Json.EndsNumber ['\n'] := Json.endsNumber_cons (by decide)
  have hparse := Json.parseWithin?_indented a.toJson 0 Json.maxDepth "\n" (by decide) hends
  rw [ofText, canonicalText, Json.pretty, Json.parse?, hparse]
  by_cases hdepth : a.toJson.depth ≤ Json.maxDepth
  · rw [if_pos hdepth, if_pos hdepth, toJson_eq]
    have hmembers := a.rereadMembers_members a.abi a.metadataMember
    cases habi : a.abi.reread with
    | none =>
      rw [habi] at hmembers
      rw [Json.reread, hmembers]
      rfl
    | some abi =>
      rw [habi] at hmembers
      rcases a.metadataMember_spec.reread with ⟨hm, hmore⟩ | ⟨m, found, hm, hmore, hfound⟩
      · rw [hmore] at hmembers
        rw [Json.reread, hmembers, hm]
        rfl
      · rw [hmore] at hmembers
        rw [Json.reread_object hmembers (a.members_ascending abi hfound), hm]
        exact a.ofJson_members abi hfound
  · rw [if_neg hdepth, if_neg hdepth]

theorem eq_of_ofText_canonicalText {a b : Artifact} (h : ofText a.canonicalText = .ok b) :
    b = { a with abi := b.abi, metadata := b.metadata } := by
  rw [ofText_canonicalText] at h
  split at h
  · split at h
    · cases h
      rfl
    · cases h
  · cases h

def ReadsBack (a : Artifact) : Prop := ofText a.canonicalText = .ok a

theorem depth_toJson (a : Artifact) :
    a.toJson.depth = 1 + max a.abi.depth (max 1 a.metadata.depth) := by
  have hstrings : ∀ l : List String, Json.depthItems (l.map .string) = 0 := by
    intro l
    induction l with
    | nil => rw [List.map_nil, Json.depthItems]
    | cons s rest ih => rw [List.map_cons, Json.depthItems, ih, Json.depth_string, Nat.max_zero]
  have hcompiler : a.compiler.toJson.depth = 1 := by
    rw [RecordedSettings.toJson]
    cases a.compiler.evmVersion <;> simp [Json.depth, Json.depthMembers]
  have hdependencies : (Json.array (a.dependencies.names.map .string)).depth = 1 := by
    rw [Json.depth, hstrings]
  have hmetadata : ∀ {m : Json} {more : List (String × Json)}, MetadataMember m more →
      ∀ rest, Json.depthMembers (more ++ rest) = max m.depth (Json.depthMembers rest) := by
    intro m more h rest
    cases h with
    | absent => simp [Json.depth]
    | present => rw [List.singleton_append, Json.depthMembers]
  rw [toJson_eq, Json.depth, members, List.append_assoc]
  simp only [List.cons_append, List.nil_append, Json.depthMembers, hcompiler, hdependencies,
    hmetadata a.metadataMember_spec, Json.depth_string]
  omega

theorem readsBack_iff {a : Artifact} : a.ReadsBack ↔
    max a.abi.depth (max 1 a.metadata.depth) < Json.maxDepth ∧ a.abi.reread = some a.abi ∧
      a.metadata.reread = some a.metadata := by
  rw [ReadsBack, ofText_canonicalText, depth_toJson]
  constructor
  · intro h
    split at h
    · rename_i hdepth
      split at h
      · rename_i abi metadata habi hmetadata
        have he := Except.ok.inj h
        have hj := congrArg Artifact.abi he
        have hm := congrArg Artifact.metadata he
        dsimp only at hj hm
        rw [habi, hmetadata, hj, hm]
        exact ⟨by omega, rfl, rfl⟩
      · cases h
    · cases h
  · rintro ⟨hdepth, habi, hmetadata⟩
    rw [if_pos (by omega), habi, hmetadata]

end Artifact

end ContractBuild
