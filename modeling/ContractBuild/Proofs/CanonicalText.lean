import ContractBuild.Proofs.ArtifactText
import ContractBuild.Proofs.JsonKeys

/-! Canonical texts of artifacts. As long as numbers are integers of 64 bits, and not too many brackets
are open at a time, an artifact is what its text reads as, so that texts differ if artifacts do. -/

namespace ContractBuild

namespace Json

mutual

def isIntegral : Json → Bool
  | .integer n => -0x8000000000000000 ≤ n && n < wordBound
  | .real _ => false
  | .array items => isIntegralItems items
  | .object members => isIntegralMembers members
  | .null | .bool _ | .string _ => true

def isIntegralItems : List Json → Bool
  | [] => true
  | x :: xs => isIntegral x && isIntegralItems xs

def isIntegralMembers : List (String × Json) → Bool
  | [] => true
  | (_, x) :: xs => isIntegral x && isIntegralMembers xs

end

def IsOrdered (v : Json) : Prop := ∀ keys ∈ v.objectKeys, keys.Pairwise (· < ·)

instance (v : Json) : Decidable v.IsOrdered := inferInstanceAs (Decidable (∀ _ ∈ _, _))

theorem reread_negative {n : Nat} (hn : n < 0x8000000000000000) :
    reread (.integer (.negSucc n)) = some (.integer (.negSucc n)) := by
  have htext : (toString (Int.negSucc n)).toList = '-' :: Nat.toDigits 10 (n + 1) := by
    show ("-" ++ toString (n + 1)).toList = _
    simp only [String.toList_append, Nat.toString_eq_ofList_toDigits, String.toList_ofList]
    rfl
  have hword : n + 1 < wordBound := Nat.lt_of_le_of_lt hn (by decide)
  have hwhole : wholeNumber true (n + 1) = .integer (.negSucc n) := by
    rw [wholeNumber, if_neg (by decide), if_neg (by omega)]
    rfl
  rw [reread, htext, numberOf?, numberFront, number?_toDigits true hword, hwhole]

theorem reread_word {n : Int} (h : (integer n).isIntegral = true) :
    reread (.integer n) = some (.integer n) := by
  rw [isIntegral, Bool.and_eq_true, decide_eq_true_iff, decide_eq_true_iff] at h
  cases n with
  | ofNat n => exact reread_integer (Int.ofNat_lt.1 h.2)
  | negSucc n => exact reread_negative (by omega)

mutual

theorem reread_eq : (v : Json) → v.isIntegral = true → v.IsOrdered → reread v = some v
  | .null, _, _ => rfl
  | .bool _, _, _ => rfl
  | .integer _, h, _ => reread_word h
  | .string _, _, _ => rfl
  | .array items, h, ho => by
    rw [isIntegral] at h
    rw [IsOrdered, objectKeys] at ho
    rw [reread, rereadItems_eq items h ho]
    rfl
  | .object members, h, ho => by
    rw [isIntegral] at h
    rw [IsOrdered, objectKeys, List.forall_mem_append, List.forall_mem_singleton] at ho
    exact reread_object (rereadMembers_eq members h ho.1) (List.pairwise_map.1 ho.2)

theorem rereadItems_eq : (items : List Json) → isIntegralItems items = true →
    (∀ keys ∈ objectKeysItems items, keys.Pairwise (· < ·)) → rereadItems items = some items
  | [], _, _ => rfl
  | x :: xs, h, ho => by
    rw [isIntegralItems, Bool.and_eq_true] at h
    rw [objectKeysItems, List.forall_mem_append] at ho
    rw [rereadItems, reread_eq x h.1 ho.1, rereadItems_eq xs h.2 ho.2]

theorem rereadMembers_eq : (members : List (String × Json)) → isIntegralMembers members = true →
    (∀ keys ∈ objectKeysMembers members, keys.Pairwise (· < ·)) →
    rereadMembers members = some members
  | [], _, _ => rfl
  | (k, x) :: xs, h, ho => by
    rw [isIntegralMembers, Bool.and_eq_true] at h
    rw [objectKeysMembers, List.forall_mem_append] at ho
    rw [rereadMembers_cons (reread_eq x h.1 ho.1), rereadMembers_eq xs h.2 ho.2]
    rfl

end

theorem isOrdered_array {items : List Json} :
    (array items).IsOrdered ↔ ∀ x ∈ items, x.IsOrdered := by
  rw [IsOrdered, objectKeys]
  induction items with
  | nil => simp [objectKeysItems]
  | cons x xs ih => rw [objectKeysItems, List.forall_mem_append, ih, List.forall_mem_cons, IsOrdered]

theorem isOrdered_object {members : List (String × Json)} :
    (object members).IsOrdered ↔
      (∀ m ∈ members, m.2.IsOrdered) ∧ members.Pairwise fun a b => a.1 < b.1 := by
  rw [IsOrdered, objectKeys, List.forall_mem_append, List.forall_mem_singleton, List.pairwise_map]
  refine and_congr ?_ Iff.rfl
  induction members with
  | nil => simp [objectKeysMembers]
  | cons m ms ih =>
    rw [objectKeysMembers, List.forall_mem_append, ih, List.forall_mem_cons, IsOrdered]

theorem isOrdered_of_flat {v : Json} (h : v.objectKeys = []) : v.IsOrdered := by
  rw [IsOrdered, h]
  exact List.forall_mem_nil _

/-- What a file can hold as it is: there are no fractions, and there is room for one more bracket
around the value. -/
structure Portable (v : Json) : Prop where
  integral : v.isIntegral = true
  ordered : v.IsOrdered
  depth_lt : v.depth < maxDepth

instance (v : Json) : Decidable v.Portable :=
  decidable_of_iff (v.isIntegral = true ∧ v.IsOrdered ∧ v.depth < maxDepth)
    ⟨fun ⟨h, ho, hd⟩ => ⟨h, ho, hd⟩, fun ⟨h, ho, hd⟩ => ⟨h, ho, hd⟩⟩

end Json

theorem RecordedSettings.toJson_isOrdered (s : RecordedSettings) : s.toJson.IsOrdered := by
  have hnames : ["evmVersion", "optimize", "runs", "version"].Pairwise (· < ·) := by decide
  have hevm : ((s.evmVersion.map Json.string).getD .null).IsOrdered := by
    cases s.evmVersion with
    | none => exact Json.isOrdered_of_flat rfl
    | some v => exact Json.isOrdered_of_flat rfl
  rw [toJson, Json.isOrdered_object]
  refine ⟨?_, List.pairwise_map.1 hnames⟩
  simp only [List.forall_mem_cons]
  exact ⟨hevm, Json.isOrdered_of_flat rfl, Json.isOrdered_of_flat rfl, Json.isOrdered_of_flat rfl,
    List.forall_mem_nil _⟩

namespace Artifact

structure Portable (a : Artifact) : Prop where
  abi : a.abi.Portable
  metadata : a.metadata.Portable

theorem toJson_isOrdered {a : Artifact} (habi : a.abi.IsOrdered) (hmetadata : a.metadata.IsOrdered) :
    a.toJson.IsOrdered := by
  have hstring : ∀ s, (Json.string s).IsOrdered := fun _ => Json.isOrdered_of_flat rfl
  have hdependencies : (Json.array (a.dependencies.names.map .string)).IsOrdered := by
    rw [Json.isOrdered_array, List.forall_mem_map]
    exact fun s _ => hstring s
  have hmore : ∀ {m : Json} {more : List (String × Json)}, MetadataMember m more → m.IsOrdered →
      ∀ e ∈ more, e.2.IsOrdered := by
    intro m more h hm
    cases h with
    | absent => exact List.forall_mem_nil _
    | present => exact List.forall_mem_singleton.2 hm
  rw [toJson_eq, Json.isOrdered_object]
  refine ⟨?_, a.members_ascending a.abi a.metadataMember_spec⟩
  rw [members, List.forall_mem_append, List.forall_mem_append]
  simp only [List.forall_mem_cons]
  exact ⟨⟨⟨habi, hstring _, a.compiler.toJson_isOrdered, hstring _, hdependencies, hstring _,
    hstring _, List.forall_mem_nil _⟩, hmore a.metadataMember_spec hmetadata⟩, hstring _, hstring _,
    List.forall_mem_nil _⟩

theorem keyLists_canonicalText (a : Artifact) :
    Json.keyLists false [] a.canonicalText.toList = a.toJson.objectKeys := by
  have hend : Json.isSettled ['\n'] = true := rfl
  rw [canonicalText, Json.pretty, String.toList_append]
  exact (Json.keyLists_indented a.toJson 0 [] _ hend).trans (List.append_nil _)

theorem Portable.readsBack {a : Artifact} (h : a.Portable) : a.ReadsBack := by
  have hmax : 1 < Json.maxDepth := by decide
  refine readsBack_iff.2 ⟨?_, ?_, ?_⟩
  · exact Nat.max_lt.2 ⟨h.abi.depth_lt, Nat.max_lt.2 ⟨hmax, h.metadata.depth_lt⟩⟩
  · exact Json.reread_eq _ h.abi.integral h.abi.ordered
  · exact Json.reread_eq _ h.metadata.integral h.metadata.ordered

/-- An artifact is what its text reads as, and equal artifacts are those with equal texts. -/
theorem canonicalText_exact {a : Artifact} (h : a.Portable) :
    ofText a.canonicalText = .ok a ∧
    (∀ keys ∈ Json.keyLists false [] a.canonicalText.toList,
      (keys.map Text.bytes).Pairwise (· < ·)) ∧
    ∀ b : Artifact, b.Portable →
      (a = b ↔ Text.bytes a.canonicalText = Text.bytes b.canonicalText) := by
  refine ⟨h.readsBack, fun keys hkeys => ?_, fun b hb => ⟨fun he => by rw [he], fun he => ?_⟩⟩
  · rw [keyLists_canonicalText] at hkeys
    have hascending := toJson_isOrdered h.abi.ordered h.metadata.ordered keys hkeys
    exact List.pairwise_map.2 (hascending.imp Text.bytes_lt)
  · have hread := h.readsBack
    rw [ReadsBack, Text.bytes_inj he, hb.readsBack] at hread
    exact (Except.ok.inj hread).symm

namespace Sample

def awkward : Artifact where
  name := "T\"\\o\u0001ken"
  fingerprint := ⟨List.replicate 16 0xA0, rfl⟩
  compiler := ⟨"0.1.0", true, 4294967295, none⟩
  dependencies := .ofList ["Z", "A\n"]
  bytecode := "0x"
  deployedBytecode := ""
  abi := .array [.object [("inputs", .array []), ("name", .string "a: \"b\"")],
    .array [.integer (-0x8000000000000000), .integer 0xFFFFFFFFFFFFFFFF]]
  sourcePath := "contracts/T.sol"
  kind := .library
  metadata := .object [("\n", .null), ("a\"", .object [("\\", .bool true), ("é", .object [])]),
    ("😀", .string "\t")]

def changed : Artifact := { awkward with metadata := .integer (-1) }

theorem awkward_portable : awkward.Portable := ⟨by decide, by decide⟩

theorem changed_portable : changed.Portable := ⟨awkward_portable.abi, by decide⟩

end Sample

theorem canonicalText_exact_of_escapes :
    Sample.awkward.Portable ∧ Sample.changed.Portable ∧
    ofText Sample.awkward.canonicalText = .ok Sample.awkward ∧
    Json.keyLists false [] Sample.awkward.canonicalText.toList =
      [["inputs", "name"], ["evmVersion", "optimize", "runs", "version"], [], ["\\", "é"],
        ["\n", "a\"", "😀"], ["abi", "bytecode", "compiler", "contractName", "dependencies",
          "deployedBytecode", "fingerprint", "metadata", "sourcePath", "type"]] ∧
    (∀ keys ∈ Json.keyLists false [] Sample.awkward.canonicalText.toList,
      (keys.map Text.bytes).Pairwise (· < ·)) ∧
    Text.bytes Sample.awkward.canonicalText ≠ Text.bytes Sample.changed.canonicalText := by
  obtain ⟨hread, hkeys, hsame⟩ := canonicalText_exact Sample.awkward_portable
  refine ⟨Sample.awkward_portable, Sample.changed_portable, hread, ?_, hkeys, ?_⟩
  · rw [keyLists_canonicalText]
    decide
  · exact fun he => absurd ((hsame _ Sample.changed_portable).2 he) (by decide)

end Artifact
end ContractBuild
