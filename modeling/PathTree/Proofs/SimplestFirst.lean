import PathTree.Proofs.Candidates

/-!
# Simplest integers first

The integer candidates of a search are the integers within the radius and those next to a literal or
its negation, without repetition and in the order of their magnitudes, the positive one of two first
(`candidates_simplestFirst`). They are computed in words of 64 bits. A neighbour that is no word
wraps around to one that is a neighbour as well (`mem_neighbours_iff`), so nothing is lost and
nothing is added. But the magnitude of the least word wraps around to the word itself, which is less
than all magnitudes (`magnitude64_eq`) : where the least word is a candidate, it comes before 0.
-/

namespace PathTree

/-! ## Words -/

/-- The least word of 64 bits. -/
def leastWord : Int := -0x8000000000000000

theorem isWord64_iff {n : Int} : isWord64 n ↔ leastWord ≤ n ∧ n < -leastWord := by
  simp [isWord64, leastWord]

/-- Words do not wrap around. -/
theorem wrap64_of_isWord64 {n : Int} (h : isWord64 n) : wrap64 n = n := by
  rw [isWord64_iff] at h
  unfold leastWord at h
  exact Int.bmod_eq_of_le (by omega) (by omega)

/-- The magnitude of a word is its absolute value, but the least word is its own magnitude. -/
theorem magnitude64_eq {n : Int} (h : isWord64 n) :
    magnitude64 n = if n = leastWord then leastWord else n.natAbs := by
  unfold magnitude64
  by_cases hleast : n = leastWord
  · subst hleast
    decide
  · rw [isWord64_iff] at h
    rw [wrap64_of_isWord64 (isWord64_iff.mpr (by unfold leastWord at *; omega)), if_neg hleast]
    split_ifs <;> omega

/-! ## Neighbours -/

/-- The integers next to a literal and next to its negation, both with themselves. -/
def nextTo (l : Int) : List Int := [l - 1, l, l + 1, -l - 1, -l, -l + 1]

/-- The neighbours of a word are the words among the integers next to it and to its negation. -/
theorem mem_neighbours_iff {l n : Int} (hl : isWord64 l) :
    n ∈ neighbours l ↔ isWord64 n ∧ n ∈ nextTo l := by
  rw [isWord64_iff] at hl ⊢
  unfold leastWord at hl ⊢
  -- Around the ends of the range the neighbours are known, and everywhere else none wraps around.
  have hends : l = -0x8000000000000000 ∨ l = -0x7fffffffffffffff ∨ l = 0x7fffffffffffffff ∨
      (-0x7fffffffffffffff < l ∧ l < 0x7fffffffffffffff) := by omega
  rcases hends with rfl | rfl | rfl | hinner
  · have hall : neighbours (-0x8000000000000000) =
        [0x7fffffffffffffff, 0x7fffffffffffffff, -0x8000000000000000, -0x8000000000000000,
          -0x7fffffffffffffff, -0x7fffffffffffffff] := by decide
    simp only [hall, nextTo, List.mem_cons, List.not_mem_nil, or_false]
    omega
  · have hall : neighbours (-0x7fffffffffffffff) =
        [-0x8000000000000000, 0x7ffffffffffffffe, -0x7fffffffffffffff, 0x7fffffffffffffff,
          -0x7ffffffffffffffe, -0x8000000000000000] := by decide
    simp only [hall, nextTo, List.mem_cons, List.not_mem_nil, or_false]
    omega
  · have hall : neighbours 0x7fffffffffffffff =
        [0x7ffffffffffffffe, -0x8000000000000000, 0x7fffffffffffffff, -0x7fffffffffffffff,
          -0x8000000000000000, -0x7ffffffffffffffe] := by decide
    simp only [hall, nextTo, List.mem_cons, List.not_mem_nil, or_false]
    omega
  · have hword {k : Int} (hk : -0x8000000000000000 ≤ k ∧ k < 0x8000000000000000) : wrap64 k = k :=
      wrap64_of_isWord64 (isWord64_iff.mpr hk)
    have hall : neighbours l = [l + -1, -l + -1, l + 0, -l + 0, l + 1, -l + 1] := by
      simp only [neighbours, List.flatMap_cons, List.flatMap_nil, List.cons_append,
        List.nil_append, List.append_nil]
      rw [hword (k := -l) (by omega), hword (by omega), hword (by omega), hword (by omega),
        hword (by omega), hword (by omega), hword (by omega)]
    simp only [hall, nextTo, List.mem_cons, List.not_mem_nil, or_false]
    omega

/-! ## The order of the candidates -/

/-- An integer is at least as simple as another: it has the smaller magnitude, or they have the same
one and it is the positive one of the two. -/
def AsSimple (a b : Int) : Prop := a.natAbs < b.natAbs ∨ a.natAbs = b.natAbs ∧ b ≤ a

instance (a b : Int) : Decidable (AsSimple a b) := inferInstanceAs (Decidable (_ ∨ _))

/-- Words other than the least one are sorted by how simple they are. -/
theorem asSimple_of_simplerInt {a b : Int} (ha : isWord64 a) (hb : isWord64 b)
    (hane : a ≠ leastWord) (hbne : b ≠ leastWord) (h : simplerInt a b = true) : AsSimple a b := by
  rw [simplerInt_iff, magnitude64_eq ha, magnitude64_eq hb, if_neg hane, if_neg hbne] at h
  unfold AsSimple
  omega

/-- The least word is sorted in front of all other words. -/
theorem eq_leastWord_of_simplerInt {a : Int} (ha : isWord64 a)
    (h : simplerInt a leastWord = true) : a = leastWord := by
  by_contra hne
  rw [simplerInt_iff, magnitude64_eq ha, if_neg hne, magnitude64_eq (by decide), if_pos rfl] at h
  unfold leastWord at h
  omega

variable {radius : Int} {ints : List Int}

/-- An integer candidate is within the radius, or it is a word next to a literal or its negation. -/
theorem mem_intCandidates_iff (hr : 0 ≤ radius) (hints : ∀ l ∈ ints, isWord64 l) {n : Int} :
    n ∈ intCandidates radius ints ↔
      n.natAbs ≤ radius ∨ isWord64 n ∧ ∃ l ∈ ints, n ∈ nextTo l := by
  rw [mem_intCandidates hr]
  refine or_congr (by omega) ⟨?_, ?_⟩
  · rintro ⟨l, hl, hn⟩
    obtain ⟨hword, hnext⟩ := (mem_neighbours_iff (hints l hl)).mp hn
    exact ⟨hword, l, hl, hnext⟩
  · rintro ⟨hword, l, hl, hnext⟩
    exact ⟨l, hl, (mem_neighbours_iff (hints l hl)).mpr ⟨hword, hnext⟩⟩

/-- All integer candidates are words, if the radius is one. -/
theorem isWord64_of_mem_intCandidates (hr : 0 ≤ radius ∧ radius < -leastWord)
    (hints : ∀ l ∈ ints, isWord64 l) {n : Int} (hn : n ∈ intCandidates radius ints) :
    isWord64 n := by
  rcases (mem_intCandidates_iff hr.1 hints).mp hn with h | h
  · rw [isWord64_iff]
    unfold leastWord at *
    omega
  · exact h.1

theorem pairwise_intCandidates (radius : Int) (ints : List Int) :
    (intCandidates radius ints).Pairwise fun a b => simplerInt a b = true :=
  List.pairwise_mergeSort simplerInt_trans simplerInt_total _

/-- The integer candidates are simplest first, but for the least word. For a radius that is a word
but not the greatest one, and literals that are words: no candidate is repeated, the candidates are
the integers within the radius and the words next to a literal or its negation, and they are sorted
by magnitude with the positive one of two first. The least word alone is out of this order: it is a
candidate if a literal is the least or the greatest word or the one above the least, and then it
comes before all others. -/
theorem candidates_simplestFirst {m : Mentioned} (hr : 1 ≤ radius ∧ radius ≤ 2 ^ 63 - 2)
    (hints : ∀ l ∈ m.ints, isWord64 l) :
    ∃ ns : List Int, candidates radius m .int = ns.map .ofInt ∧ ns.Nodup ∧
      (∀ n, n ∈ ns ↔ n.natAbs ≤ radius ∨ isWord64 n ∧ ∃ l ∈ m.ints, n ∈ nextTo l) ∧
      (ns.filter (· ≠ leastWord)).Pairwise AsSimple ∧
      (leastWord ∈ ns ↔ ∃ l ∈ m.ints, l ∈ [leastWord, leastWord + 1, -leastWord - 1]) ∧
      (leastWord ∈ ns → ns.head? = some leastWord) := by
  have hradius : 0 ≤ radius ∧ radius < -leastWord := by
    unfold leastWord
    omega
  have hword : ∀ n ∈ intCandidates radius m.ints, isWord64 n := fun n hn =>
    isWord64_of_mem_intCandidates hradius hints hn
  have hsorted := pairwise_intCandidates radius m.ints
  have hmem : ∀ n, n ∈ intCandidates radius m.ints ↔
      n.natAbs ≤ radius ∨ isWord64 n ∧ ∃ l ∈ m.ints, n ∈ nextTo l := fun n =>
    mem_intCandidates_iff hradius.1 hints
  refine ⟨intCandidates radius m.ints, rfl, nodup_intCandidates hradius.1 m.ints, hmem, ?_, ?_, ?_⟩
  · refine (hsorted.filter _).imp_of_mem fun {a b} ha hb hab => ?_
    rw [List.mem_filter, decide_eq_true_eq] at ha hb
    exact asSimple_of_simplerInt (hword a ha.1) (hword b hb.1) ha.2 hb.2 hab
  · rw [hmem]
    have hnext : ∀ l ∈ m.ints, leastWord ∈ nextTo l ↔
        l ∈ [leastWord, leastWord + 1, -leastWord - 1] := by
      intro l hl
      have := isWord64_iff.mp (hints l hl)
      simp only [nextTo, List.mem_cons, List.not_mem_nil, or_false]
      unfold leastWord at *
      omega
    have hfar : ¬(leastWord.natAbs : Int) ≤ radius := by
      unfold leastWord at *
      omega
    have hleast : isWord64 leastWord := by decide
    simp only [hfar, hleast, false_or, true_and]
    exact exists_congr fun l => and_congr_right fun hl => hnext l hl
  · intro hleast
    cases hlist : intCandidates radius m.ints with
    | nil => simp [hlist] at hleast
    | cons a ns =>
      rw [hlist] at hleast hsorted
      rcases List.mem_cons.mp hleast with rfl | hns
      · rfl
      · have ha : isWord64 a := hword a (by simp [hlist])
        rw [eq_leastWord_of_simplerInt ha ((List.pairwise_cons.mp hsorted).1 _ hns)]
        rfl

/-- The neighbours of the greatest word wrap around to the least one. -/
theorem candidates_simplestFirst_greatestWord :
    (1 : Int) ≤ 2 ∧ (2 : Int) ≤ 2 ^ 63 - 2 ∧ isWord64 (-leastWord - 1) ∧
      ∃ ns : List Int, candidates 2 ⟨[-leastWord - 1], []⟩ .int = ns.map .ofInt ∧
        -leastWord - 2 ∈ ns ∧ ns.head? = some leastWord ∧
        (ns.filter (· ≠ leastWord)).Pairwise AsSimple := by
  obtain ⟨ns, hns, -, hmem, hsorted, hleast, hfirst⟩ :=
    candidates_simplestFirst (m := ⟨[-leastWord - 1], []⟩)
      (show (1 : Int) ≤ 2 ∧ (2 : Int) ≤ 2 ^ 63 - 2 by decide) (by decide)
  exact ⟨by decide, by decide, by decide, ns, hns, (hmem _).mpr (Or.inr (by decide)),
    hfirst (hleast.mpr (by decide)), hsorted⟩

/-- Any other integer than the greatest word is asked for. -/
def notGreatest : Query where
  params := [⟨"x", "int"⟩]
  conds := [.binary .ne (.ident "x") (.lit ⟨.int, "9223372036854775807"⟩)]

/-- The least word is found, although 0 is a candidate as well. -/
theorem not_simplestFirst_notGreatest :
    ((Solver.bounded (σ := Unit) ⟨3, 50⟩).solve notGreatest (.unlimited, ())).1 =
        .ok ⟨true, some [⟨"x", .ofInt leastWord⟩]⟩ ∧
      Mentioned.ofConds notGreatest.conds = .ok ⟨[-leastWord - 1], []⟩ ∧
      0 ∈ intCandidates 3 [-leastWord - 1] ∧
      ¬(intCandidates 3 [-leastWord - 1]).Pairwise AsSimple := by
  have hall : intCandidates 3 [-leastWord - 1] =
      [leastWord, 0, 1, -1, 2, -2, 3, -3, -leastWord - 2, leastWord + 2, -leastWord - 1,
        leastWord + 1] := by cbv
  refine ⟨by cbv, by cbv, by simp [hall], fun h => ?_⟩
  rw [hall] at h
  exact absurd ((List.pairwise_cons.mp h).1 0 (by simp)) (by decide)

end PathTree
