import Mathlib.Data.List.Basic

/-! Scans that look ahead: what a step yields, and the state that it leaves, may depend on all that
follows. The part of a scan in front of a suffix is taken with the suffix in place, so that nothing
which reaches into the suffix is cut off. -/

namespace ContractBuild

abbrev Scanner (σ α β : Type) := σ → α → List α → Option β × σ

namespace Scanner

variable {σ α β : Type}

def run (f : Scanner σ α β) (s : σ) : List α → List β
  | [] => []
  | a :: l => (f s a l).1.toList ++ run f (f s a l).2 l

/-- What is found in a list that `rest` follows. -/
def before (f : Scanner σ α β) (rest : List α) (s : σ) : List α → List β
  | [] => []
  | a :: l => (f s a (l ++ rest)).1.toList ++ before f rest (f s a (l ++ rest)).2 l

def reach (f : Scanner σ α β) (rest : List α) (s : σ) : List α → σ
  | [] => s
  | a :: l => reach f rest (f s a (l ++ rest)).2 l

theorem before_nil (f : Scanner σ α β) (s : σ) (l : List α) : f.before [] s l = f.run s l := by
  induction l generalizing s with
  | nil => rfl
  | cons a l ih => rw [before, run, List.append_nil, ih]

theorem run_append (f : Scanner σ α β) (s : σ) (l rest : List α) :
    f.run s (l ++ rest) = f.before rest s l ++ f.run (f.reach rest s l) rest := by
  induction l generalizing s with
  | nil => rfl
  | cons a l ih => rw [List.cons_append, run, ih, before, reach, List.append_assoc]

theorem reach_append (f : Scanner σ α β) (rest : List α) (s : σ) (l m : List α) :
    f.reach rest s (l ++ m) = f.reach rest (f.reach (m ++ rest) s l) m := by
  induction l generalizing s with
  | nil => rfl
  | cons a l ih => rw [List.cons_append, reach, ih, reach, List.append_assoc]

theorem run_split {f : Scanner σ α β} {s : σ} {l : List α} {bs cs : List β} {b : β}
    (h : f.run s l = bs ++ b :: cs) :
    ∃ m a rest, l = m ++ a :: rest ∧ f.before (a :: rest) s m = bs ∧
      (f (f.reach (a :: rest) s m) a rest).1 = some b ∧
      f.run (f (f.reach (a :: rest) s m) a rest).2 rest = cs := by
  induction l generalizing s bs with
  | nil =>
    rw [run] at h
    exact absurd h.symm (List.append_ne_nil_of_right_ne_nil _ (List.cons_ne_nil _ _))
  | cons a l ih =>
    rw [run] at h
    cases hstep : (f s a l).1 with
    | none =>
      rw [hstep] at h
      obtain ⟨m, a', rest, rfl, hm, hb, hcs⟩ := ih h
      refine ⟨a :: m, a', rest, rfl, ?_, hb, hcs⟩
      rw [before, hstep]
      exact hm
    | some b' =>
      rw [hstep] at h
      cases bs with
      | nil =>
        obtain ⟨rfl, rfl⟩ := List.cons.inj h
        exact ⟨[], a, l, rfl, rfl, hstep, rfl⟩
      | cons b'' bs =>
        obtain ⟨rfl, htail⟩ := List.cons.inj h
        obtain ⟨m, a', rest, rfl, hm, hb, hcs⟩ := ih htail
        refine ⟨a :: m, a', rest, rfl, ?_, hb, hcs⟩
        rw [before, hstep]
        exact congrArg (b' :: ·) hm

theorem mem_before {f : Scanner σ α β} {rest : List α} {s : σ} {l : List α} {b : β}
    (h : b ∈ f.before rest s l) :
    ∃ m a n, l = m ++ a :: n ∧ (f (f.reach (a :: n ++ rest) s m) a (n ++ rest)).1 = some b ∧
      f.reach rest (f (f.reach (a :: n ++ rest) s m) a (n ++ rest)).2 n = f.reach rest s l := by
  induction l generalizing s with
  | nil => exact absurd h List.not_mem_nil
  | cons a l ih =>
    rw [before, List.mem_append, Option.mem_toList] at h
    rcases h with h | h
    · exact ⟨[], a, l, rfl, h, rfl⟩
    · obtain ⟨m, a', n, rfl, hb, hn⟩ := ih h
      rw [List.append_assoc] at hb hn
      refine ⟨a :: m, a', n, rfl, ?_, ?_⟩
      · rw [reach]
        exact hb
      · rw [reach, reach, List.append_assoc]
        exact hn

/-- If the steps of a scan that gets to its end before `rest` are also those of another scan before
`rest'`, then both find the same on the way. -/
theorem transfer {f g : Scanner σ α β} (done : σ → Prop) {rest rest' : List α}
    (h : ∀ s a l, done (f.reach rest (f s a (l ++ rest)).2 l) →
      g s a (l ++ rest') = f s a (l ++ rest)) {s : σ} {l : List α} (hl : done (f.reach rest s l)) :
    g.before rest' s l = f.before rest s l ∧ g.reach rest' s l = f.reach rest s l := by
  induction l generalizing s with
  | nil => exact ⟨rfl, rfl⟩
  | cons a l ih =>
    rw [reach] at hl
    rw [before, before, reach, reach, h s a l hl]
    obtain ⟨hb, hr⟩ := ih hl
    exact ⟨by rw [hb], hr⟩

theorem run_map {σ' α' β' : Type} {f : Scanner σ α β} {g : Scanner σ' α' β'} (φ : σ → σ')
    (χ : α → α') (ψ : β → β')
    (h : ∀ s a l, g (φ s) (χ a) (l.map χ) = ((f s a l).1.map ψ, φ (f s a l).2)) (s : σ) (l : List α) :
    g.run (φ s) (l.map χ) = (f.run s l).map ψ := by
  induction l generalizing s with
  | nil => rfl
  | cons a l ih =>
    rw [List.map_cons, run, h, ih, run, List.map_append]
    cases (f s a l).1 <;> rfl

end Scanner
end ContractBuild
