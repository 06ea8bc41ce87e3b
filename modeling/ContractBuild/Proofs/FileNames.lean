import ContractBuild.FileTree
import ContractBuild.Store

/-! Names of files and what paths make of them. A name without slashes is one step of a path; the
last dot of a name parts its extension from its stem, and the name is put together from both. -/

namespace ContractBuild

namespace Text

variable {p : Char → Bool}

theorem pieces_cons (c : Char) (s : List Char) :
    pieces p (c :: s) = addToPieces p c (pieces p s) := rfl

theorem addToPieces_of_separator {c : Char} (h : p c = true) (found : List (List Char)) :
    addToPieces p c found = [] :: found := by
  unfold addToPieces
  rw [if_pos h]

theorem addToPieces_of_other {c : Char} (h : p c = false) (piece : List Char)
    (more : List (List Char)) :
    addToPieces p c (piece :: more) = (c :: piece) :: more := by
  unfold addToPieces
  rw [h, if_neg Bool.false_ne_true]

theorem pieces_of_forall {s : List Char} (h : ∀ c ∈ s, p c = false) :
    pieces p s = [s] := by
  induction s with
  | nil => rfl
  | cons c rest ih =>
    rw [pieces_cons, ih fun x hx => h x (List.mem_cons_of_mem c hx),
      addToPieces_of_other (h c List.mem_cons_self)]

theorem exists_pieces (s : List Char) : ∃ piece more, pieces p s = piece :: more := by
  induction s with
  | nil => exact ⟨[], [], rfl⟩
  | cons c rest ih =>
    obtain ⟨piece, more, heq⟩ := ih
    rw [pieces_cons, heq]
    cases hc : p c with
    | true => exact ⟨_, _, addToPieces_of_separator hc _⟩
    | false => exact ⟨_, _, addToPieces_of_other hc _ _⟩

theorem pieces_append_cons (s : List Char) {c : Char} (hc : p c = true)
    (rest : List Char) :
    pieces p (s ++ c :: rest) = pieces p s ++ pieces p rest := by
  induction s with
  | nil =>
    rw [List.nil_append, pieces_cons, addToPieces_of_separator hc]
    rfl
  | cons x s ih =>
    obtain ⟨piece, more, heq⟩ := exists_pieces (p := p) s
    rw [List.cons_append, pieces_cons, pieces_cons, ih, heq]
    cases hx : p x with
    | true =>
      rw [addToPieces_of_separator hx, addToPieces_of_separator hx, List.cons_append,
        List.cons_append, List.cons_append]
    | false =>
      rw [List.cons_append, addToPieces_of_other hx, addToPieces_of_other hx, List.cons_append]

theorem not_separator_of_mem_pieces {s : List Char} {piece : List Char}
    (h : piece ∈ pieces p s) {c : Char} (hc : c ∈ piece) : p c = false := by
  induction s generalizing piece with
  | nil =>
    rw [List.mem_singleton.1 h] at hc
    cases hc
  | cons x s ih =>
    obtain ⟨head, more, heq⟩ := exists_pieces (p := p) s
    cases hx : p x with
    | true =>
      rw [pieces_cons, addToPieces_of_separator hx] at h
      rcases List.mem_cons.1 h with rfl | h
      · cases hc
      · exact ih h hc
    | false =>
      rw [pieces_cons, heq, addToPieces_of_other hx] at h
      rcases List.mem_cons.1 h with rfl | h
      · rcases List.mem_cons.1 hc with rfl | hc
        · exact hx
        · exact ih (heq ▸ List.mem_cons_self) hc
      · exact ih (heq ▸ List.mem_cons_of_mem head h) hc

theorem intercalate_pieces (separator : Char) (s : List Char) :
    [separator].intercalate (pieces (· == separator) s) = s := by
  induction s with
  | nil => rfl
  | cons c rest ih =>
    obtain ⟨head, more, heq⟩ := exists_pieces (p := (· == separator)) rest
    rw [heq] at ih
    rw [pieces_cons, heq]
    by_cases hc : c = separator
    · rw [addToPieces_of_separator (p := (· == separator)) (beq_iff_eq.2 hc), List.intercalate_cons_cons, ih, hc]
      rfl
    · rw [addToPieces_of_other (p := (· == separator)) (beq_false_of_ne hc)]
      cases more with
      | nil =>
        rw [List.intercalate_singleton] at ih ⊢
        rw [ih]
      | cons q more =>
        rw [List.intercalate_cons_cons] at ih ⊢
        rw [← ih]
        rfl

theorem intercalate_splitOn (separator : Char) (s : String) :
    (String.singleton separator).intercalate (splitOn separator s) = s := by
  apply String.toList_inj.1
  have hid : String.toList ∘ String.ofList = id := funext fun _ => String.toList_ofList
  rw [String.toList_intercalate, splitOn, List.map_map, hid, List.map_id, String.toList_singleton]
  exact intercalate_pieces separator s.toList

theorem splitOn_of_not_mem {separator : Char} {s : String} (h : separator ∉ s.toList) :
    splitOn separator s = [s] := by
  rw [splitOn, pieces_of_forall, List.map_singleton, String.ofList_toList]
  intro c hc
  exact beq_false_of_ne fun he => h (he ▸ hc)

theorem splitOn_append (separator : Char) (s rest : String) :
    splitOn separator (s ++ String.singleton separator ++ rest) =
      splitOn separator s ++ splitOn separator rest := by
  rw [splitOn, splitOn, splitOn, ← List.map_append, String.toList_append, String.toList_append,
    String.toList_singleton, List.append_assoc, List.singleton_append,
    pieces_append_cons (p := (· == separator)) _ (beq_self_eq_true separator)]

theorem splitOn_intercalate {separator : Char} {l : List String} (hne : l ≠ [])
    (h : ∀ s ∈ l, separator ∉ s.toList) :
    splitOn separator ((String.singleton separator).intercalate l) = l := by
  induction l with
  | nil => exact absurd rfl hne
  | cons s rest ih =>
    have hs := splitOn_of_not_mem (h s List.mem_cons_self)
    cases rest with
    | nil =>
      rw [String.intercalate_singleton]
      exact hs
    | cons r more =>
      have hrest := ih (List.cons_ne_nil r more) fun x hx => h x (List.mem_cons_of_mem s hx)
      rw [String.intercalate_cons_cons, splitOn_append, hs, hrest]
      rfl

end Text

namespace Path

structure IsFileName (name : String) : Prop where
  isStep : isStep name = true
  ne_parent : name ≠ ".."
  noSlash : '/' ∉ name.toList
  noNul : FileTree.hasNul name = false
  short : name.utf8ByteSize ≤ FileTree.maxNameLength

theorem IsFileName.ne_empty {name : String} (h : IsFileName name) : name ≠ "" := by
  rintro rfl
  exact absurd h.isStep (by decide)

instance (name : String) : Decidable (IsFileName name) :=
  decidable_of_iff (isStep name = true ∧ name ≠ ".." ∧ '/' ∉ name.toList ∧
      FileTree.hasNul name = false ∧ name.utf8ByteSize ≤ FileTree.maxNameLength)
    ⟨fun ⟨a, b, c, d, e⟩ => ⟨a, b, c, d, e⟩, fun ⟨a, b, c, d, e⟩ => ⟨a, b, c, d, e⟩⟩

theorem IsFileName.concat {names : List String} (h : ∀ name ∈ names, IsFileName name) {last : String}
    (hlast : IsFileName last) : ∀ name ∈ names ++ [last], IsFileName name := by
  intro name hname
  rcases List.mem_append.1 hname with hname | hname
  · exact h name hname
  · rw [List.mem_singleton.1 hname]
    exact hlast

def Plain (p : Path) : Prop := ∀ s ∈ p.segments, '/' ∉ s.toList

theorem plain_ofText (text : String) : (ofText text).Plain := by
  intro s hs hslash
  obtain ⟨piece, hpiece, rfl⟩ := List.mem_map.1 hs
  rw [String.toList_ofList] at hslash
  have h := Text.not_separator_of_mem_pieces hpiece hslash
  rw [beq_self_eq_true] at h
  cases h

theorem ofText_of_noSlash {name : String} (h : '/' ∉ name.toList) : ofText name = ⟨[name]⟩ := by
  rw [ofText, Text.splitOn_of_not_mem h]

theorem absolute_segments {names : List String} (h : names ≠ []) :
    (absolute names).segments = "" :: names := by
  obtain ⟨name, rest, rfl⟩ := List.exists_cons_of_ne_nil h
  rfl

theorem isAbsolute_absolute (names : List String) : (absolute names).isAbsolute = true := by
  cases names with
  | nil => rfl
  | cons name rest => simp [absolute, isAbsolute]

theorem plain_absolute {names : List String} (h : ∀ name ∈ names, IsFileName name) :
    (absolute names).Plain := by
  intro s hs
  by_cases hn : names = []
  · subst hn
    rcases List.mem_cons.1 hs with rfl | hs
    · exact List.not_mem_nil
    · rw [List.mem_singleton.1 hs]
      exact List.not_mem_nil
  · rw [absolute_segments hn] at hs
    rcases List.mem_cons.1 hs with rfl | hs
    · exact List.not_mem_nil
    · exact (h s hs).noSlash

theorem text_absolute_inj {l k : List String} (hl : ∀ n ∈ l, IsFileName n)
    (hk : ∀ n ∈ k, IsFileName n) (hne : l ≠ []) (hne' : k ≠ [])
    (h : (absolute l).text = (absolute k).text) : l = k := by
  have hparts : ∀ {j : List String}, (∀ n ∈ j, IsFileName n) → j ≠ [] →
      Text.splitOn '/' (absolute j).text = "" :: j := by
    intro j hj hnonempty
    have hsegments := absolute_segments hnonempty
    rw [← hsegments]
    exact Text.splitOn_intercalate (hsegments ▸ List.cons_ne_nil _ _) (plain_absolute hj)
  have hsame := congrArg (Text.splitOn '/') h
  rw [hparts hl hne, hparts hk hne'] at hsame
  exact (List.cons.inj hsame).2

theorem absolute_join {names : List String} (h : ∀ name ∈ names, IsFileName name) {q : Path}
    (hq : q.isAbsolute = false) (hne : q.segments ≠ []) :
    (absolute names).join q = absolute (names ++ q.segments) := by
  rw [join, hq]
  have hnames : names ++ q.segments ≠ [] := List.append_ne_nil_of_right_ne_nil names hne
  have habs : absolute (names ++ q.segments) = ⟨"" :: (names ++ q.segments)⟩ := by
    obtain ⟨name, rest, he⟩ := List.exists_cons_of_ne_nil hnames
    rw [he]
    rfl
  rw [habs]
  by_cases hn : names = []
  · subst hn
    rfl
  · have hlast : ((absolute names).segments.getLast? == some "") = false := by
      rw [absolute_segments hn, List.getLast?_cons, List.getLast?_eq_some_getLast hn]
      exact beq_false_of_ne fun he =>
        (h _ (List.getLast_mem hn)).ne_empty (Option.some.inj he)
    rw [hlast, absolute_segments hn]
    rfl

theorem absolute_joinText {names : List String} (h : ∀ name ∈ names, IsFileName name) {name : String}
    (hslash : '/' ∉ name.toList) : (absolute names).joinText name = absolute (names ++ [name]) := by
  rw [joinText, ofText_of_noSlash hslash]
  refine absolute_join h ?_ (List.cons_ne_nil _ _)
  rw [isAbsolute]
  simp

theorem plain_join {p q : Path} (hp : p.Plain) (hq : q.Plain) : (p.join q).Plain := by
  rw [join]
  split
  · exact hq
  · split
    · intro s hs
      rcases List.mem_append.1 hs with hs | hs
      · exact hp s (List.dropLast_subset _ hs)
      · exact hq s hs
    · intro s hs
      rcases List.mem_append.1 hs with hs | hs
      · exact hp s hs
      · exact hq s hs

theorem splitName_eq (name : String) : splitName name =
    match (Text.splitOn '.' name).reverse with
    | extension :: rest =>
      if ".".intercalate rest.reverse = "" then (name, none)
      else (".".intercalate rest.reverse, some extension)
    | [] => (name, none) := by
  rw [splitName, Text.splitOn, ← List.map_reverse]
  cases (Text.pieces (· == '.') name.toList).reverse with
  | nil => rfl
  | cons extension rest =>
    simp only [List.map_cons, ← List.map_reverse, String.isEmpty_iff]

theorem splitName_append {stem extension : String} (hstem : stem ≠ "")
    (hext : '.' ∉ extension.toList) :
    splitName (stem ++ "." ++ extension) = (stem, some extension) := by
  have hsplit := Text.splitOn_append '.' stem extension
  rw [Text.splitOn_of_not_mem hext] at hsplit
  have hback : ".".intercalate (Text.splitOn '.' stem) = stem := Text.intercalate_splitOn '.' stem
  have hdot : String.singleton '.' = "." := rfl
  rw [hdot] at hsplit
  rw [splitName_eq, hsplit, List.reverse_append, List.reverse_singleton, List.singleton_append]
  dsimp only
  rw [List.reverse_reverse, hback, if_neg hstem]

theorem eq_of_extensionOf? {name extension : String} (h : extensionOf? name = some extension) :
    name = stemOf name ++ "." ++ extension ∧ stemOf name ≠ "" := by
  have hsplit : splitName name = (stemOf name, some extension) := Prod.ext rfl h
  rw [splitName_eq] at hsplit
  cases hrev : (Text.splitOn '.' name).reverse with
  | nil =>
    rw [hrev] at hsplit
    cases congrArg Prod.snd hsplit
  | cons ext rest =>
    rw [hrev] at hsplit
    dsimp only at hsplit
    split at hsplit
    · cases congrArg Prod.snd hsplit
    · rename_i hne
      have hstem : ".".intercalate rest.reverse = stemOf name := congrArg Prod.fst hsplit
      have hext : ext = extension := Option.some.inj (congrArg Prod.snd hsplit)
      have hpieces : Text.splitOn '.' name = rest.reverse ++ [ext] := by
        rw [← List.reverse_reverse (Text.splitOn '.' name), hrev, List.reverse_cons]
      have hrest : rest.reverse ≠ [] := fun he => hne (by rw [he]; rfl)
      have hname : ".".intercalate (Text.splitOn '.' name) = name :=
        Text.intercalate_splitOn '.' name
      rw [hpieces, String.intercalate_append_of_ne_nil hrest (List.cons_ne_nil _ _),
        String.intercalate_singleton, hstem, hext] at hname
      exact ⟨hname.symm, hstem ▸ hne⟩

end Path
end ContractBuild
