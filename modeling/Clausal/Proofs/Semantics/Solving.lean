import Clausal.Proofs.Journal.Reports
import Clausal.Proofs.Semantics.Search

/-!
Solving a formula: the search with what is reported of it.

Before the search begins, the number of assignments is put into words, whatever the level. A number
of more than 4300 digits cannot be, so that nothing is searched from 14285 variables on. **Main
result**: up to there the search returns the assignment of the least mask that makes the formula
true, none exactly if no covering assignment does, and reports how many it has tried.
-/

namespace Clausal

/-! ### Numbers of assignments in words -/

lemma decimal_of_lt {n : Nat} (h : n < 10 ^ digitLimit) :
    decimal n = .ok (toString (n : Int)) := by
  rw [decimal, Int.natAbs_natCast, Nat.pow_eq, if_pos h]

lemma decimal_of_le {n : Nat} (h : 10 ^ digitLimit ≤ n) : decimal n = .error .tooManyDigits := by
  rw [decimal, Int.natAbs_natCast, Nat.pow_eq, if_neg (Nat.not_lt.2 h)]

/-- The number of assignments can be written for up to 14284 variables. -/
lemma two_pow_lt_iff {n : Nat} : 2 ^ n < 10 ^ digitLimit ↔ n < 14285 := by
  have hlast : 2 ^ 14284 < 10 ^ digitLimit := by decide +kernel
  have hfirst : 10 ^ digitLimit ≤ 2 ^ 14285 := by decide +kernel
  -- over variables, so that no power is computed
  have hbelow : ∀ {m l : Nat}, 2 ^ n < l → l ≤ 2 ^ m → n < m := fun h hl =>
    (Nat.pow_lt_pow_iff_right (by decide)).1 (h.trans_le hl)
  have habove : ∀ {m l : Nat}, n ≤ m → 2 ^ m < l → 2 ^ n < l := fun h hl =>
    (Nat.pow_le_pow_right (by decide) h).trans_lt hl
  exact ⟨fun h => hbelow h hfirst, fun h => habove (Nat.le_of_lt_succ h) hlast⟩

/-! ### The report -/

namespace Report

open Assignment

/-- What is reported before a search for the values of `n` variables. -/
def opening (threshold : Int) (n : Nat) : List Event :=
  (if threshold < n then [.largeSearch n (2 ^ n)] else []) ++ [.searching n (2 ^ n : Nat)]

def closing : Verdict → Event
  | ⟨some a, tried⟩ => .satisfied a tried
  | ⟨none, tried⟩ => .unsatisfied tried

section Announcing

variable (threshold : Int) {n : Nat}

lemma compose_searching (h : 2 ^ n < 10 ^ digitLimit) :
    ∃ text, (Event.searching n (2 ^ n : Nat)).compose = .ok text := by
  have hn : n < 10 ^ digitLimit := Nat.lt_trans Nat.lt_two_pow_self h
  exact ⟨_, by rw [Event.compose, decimal_of_lt h, decimal_of_lt hn]; rfl⟩

lemma compose_largeSearch (h : 2 ^ n < 10 ^ digitLimit) :
    ∃ text, (Event.largeSearch n (2 ^ n)).compose = .ok text :=
  ⟨_, by rw [Event.compose, decimal_of_lt h]; rfl⟩

lemma reports_announce (h : 2 ^ n < 10 ^ digitLimit) :
    Reports (announce threshold n) (.ok ()) (opening threshold n) := by
  obtain ⟨_, hlarge⟩ := compose_largeSearch h
  obtain ⟨_, hsearching⟩ := compose_searching h
  have hlast := Journal.reports_post_ok hsearching
  unfold announce opening
  dsimp only
  split
  · exact Journal.reports_post_bind hlarge hlast
  · exact hlast

lemma compose_searching_of_le (h : 10 ^ digitLimit ≤ 2 ^ n) :
    (Event.searching n (2 ^ n : Nat)).compose = .error .tooManyDigits := by
  rw [Event.compose, decimal_of_le h]
  rfl

/-- A number of assignments that cannot be written ends it, and leaves no record. -/
lemma run_announce_of_le (h : 10 ^ digitLimit ≤ 2 ^ n) (j : Journal) :
    (announce threshold n).run j = (.error .tooManyDigits, j.obtain Journal.defaultName) := by
  have hlarge : (Event.largeSearch n (2 ^ n)).compose = .error .tooManyDigits := by
    rw [Event.compose, decimal_of_le h]
    rfl
  unfold announce
  dsimp only
  split
  · exact run_bind_error (Journal.run_post_of_error hlarge j) _
  · exact Journal.run_post_of_error (compose_searching_of_le h) j

end Announcing

/-- The event that closes the report has words as well: no more has been tried than announced. -/
lemma compose_closing {v : Verdict} {total : Nat} (htried : v.tried ≤ total)
    (h : total < 10 ^ digitLimit) : ∃ text, (closing v).compose = .ok text := by
  have hlt := Nat.lt_of_le_of_lt htried h
  obtain ⟨_ | a, tried⟩ := v
  · exact ⟨_, by rw [closing, Event.compose, decimal_of_lt hlt]; rfl⟩
  · exact ⟨_, by rw [closing, Event.compose, decimal_of_lt hlt]; rfl⟩

section Solving

variable (threshold : Int) {e : Formula}

lemma reports_solve {v : Verdict} (h : 2 ^ e.discoverVariables.length < 10 ^ digitLimit)
    (hsearch : e.search = .ok v) (htried : v.tried ≤ 2 ^ e.discoverVariables.length) :
    Reports (solve threshold e) (.ok v.assignment)
      (opening threshold e.discoverVariables.length ++ [closing v]) := by
  obtain ⟨_, hclosing⟩ := compose_closing htried h
  unfold solve
  refine (reports_announce threshold h).bind ?_
  rw [hsearch]
  refine (reports_pure v).bind ?_
  obtain ⟨_ | a, tried⟩ := v
  · exact Journal.reports_post_bind hclosing (reports_pure none)
  · exact Journal.reports_post_bind hclosing (reports_pure (some a))

lemma run_solve_of_le (h : 10 ^ digitLimit ≤ 2 ^ e.discoverVariables.length) (j : Journal) :
    (solve threshold e).run j = (.error .tooManyDigits, j.obtain Journal.defaultName) :=
  run_bind_error (run_announce_of_le threshold h j) _

lemma returns_solve_of_le (h : 10 ^ digitLimit ≤ 2 ^ e.discoverVariables.length) :
    Returns (solve threshold e) (.error .tooManyDigits) := by
  -- an event without words does no more than the failed search does
  refine ⟨[.searching e.discoverVariables.length (2 ^ e.discoverVariables.length : Nat)],
    fun j => ?_⟩
  rw [run_solve_of_le threshold h, Journal.writeAll, List.foldl_cons, List.foldl_nil,
    Journal.write, Journal.run_post_of_error (compose_searching_of_le h)]

end Solving

/-! ### Many variables -/

/-- The names `v0`, `v1` and so on. -/
def numbered (n : Nat) : List String := (List.range n).map fun i => "v" ++ i.repr

lemma length_numbered (n : Nat) : (numbered n).length = n := by
  rw [numbered, List.length_map, List.length_range]

lemma repr_injective : Function.Injective Nat.repr := by
  intro i k h
  have hdigits : Nat.toDigits 10 i = Nat.toDigits 10 k := by
    rw [Nat.repr_eq_ofList_toDigits, Nat.repr_eq_ofList_toDigits] at h
    simpa using congrArg String.toList h
  calc i = Nat.ofDigitChars 10 (Nat.toDigits 10 i) 0 := Nat.ofDigitChars_ten_toDigits.symm
    _ = Nat.ofDigitChars 10 (Nat.toDigits 10 k) 0 := by rw [hdigits]
    _ = k := Nat.ofDigitChars_ten_toDigits

lemma nodup_numbered (n : Nat) : (numbered n).Nodup :=
  List.Nodup.map (fun _ _ h => repr_injective ((String.append_right_inj "v").1 h)) List.nodup_range

lemma limit_le_of_numbered {e : Formula} (h : ∀ x, x ∈ e.occurrences ↔ x ∈ numbered 14285) :
    10 ^ digitLimit ≤ 2 ^ e.discoverVariables.length := by
  rw [← Nat.not_lt, two_pow_lt_iff, e.length_discoverVariables (nodup_numbered _) h,
    length_numbered]
  decide

lemma mem_occurrences_disj_var {names : List String} (x : String) :
    x ∈ (Formula.disj (names.map .var)).occurrences ↔ x ∈ names := by
  simp

/-- A disjunction of variables is false under the first mask and true under the second. -/
lemma isLeast_disj_var {names : List String} (hnames : names ≠ []) :
    let e : Formula := .disj (names.map .var)
    IsLeast {m | m < 2 ^ e.discoverVariables.length ∧
      e.evaluate (ofMask e.discoverVariables m).valuation = .ok true} 1 := by
  intro e
  have hmem : ∀ x, x ∈ e.discoverVariables ↔ x ∈ names := fun x => by
    rw [Formula.mem_discoverVariables, mem_occurrences_disj_var]
  have hpos : 0 < e.discoverVariables.length := by
    obtain ⟨x, hx⟩ := List.exists_mem_of_ne_nil names hnames
    exact List.length_pos_of_mem ((hmem x).2 hx)
  have htotal : ∀ m i (_ : i < e.discoverVariables.length),
      (ofMask e.discoverVariables m).valuation.total e.discoverVariables[i] = m.testBit i := by
    intro m i hi
    rw [Valuation.total, valuation_ofMask e.nodup_discoverVariables m i hi, Option.getD_some]
  have heval : ∀ m, e.evaluate (ofMask e.discoverVariables m).valuation =
      .ok (names.any (ofMask e.discoverVariables m).valuation.total) := by
    intro m
    rw [Formula.evaluate_eq_truth (covers_ofMask e m), Formula.truth_disj, List.any_map]
    rfl
  refine ⟨⟨Nat.one_lt_two_pow hpos.ne', ?_⟩, fun m hm => ?_⟩
  · rw [heval, List.any_eq_true.2 ⟨_, (hmem _).1 (List.getElem_mem hpos), htotal 1 0 hpos⟩]
  · have htrue := hm.2
    by_contra hlt
    obtain rfl : m = 0 := by omega
    rw [heval] at htrue
    obtain ⟨x, hx, hxtrue⟩ := List.any_eq_true.1 (Except.ok.inj htrue)
    obtain ⟨i, hi, rfl⟩ := List.getElem_of_mem ((hmem x).2 hx)
    rw [htotal, Nat.zero_testBit] at hxtrue
    cases hxtrue

/-! ### The search as a whole -/

/-- **The search is sound, complete and least**, if the number of assignments can be written. The
variables are found, each once, and the masks give them their bits. The search then never fails; it
returns the assignment of the least mask that makes the formula true, and none exactly if no
covering assignment does. What is reported last is how many assignments have been tried. If the
number of assignments cannot be written, the search fails before it tries any, and no record is
left. -/
theorem solve_least (threshold : Int) (e : Formula) (j : Journal) :
    let names := e.discoverVariables
    let opened := opening threshold names.length
    (names.Nodup ∧ ∀ x, x ∈ names ↔ x ∈ e.occurrences) ∧
    (∀ m, (ofMask names m).entries.map Prod.fst = names ∧
      ∀ i (_ : i < names.length), (ofMask names m).valuation names[i] = some (m.testBit i)) ∧
    (2 ^ names.length < 10 ^ digitLimit →
      (∃ result, ((solve threshold e).run j).1 = .ok result) ∧
      (∀ m, IsLeast {m | m < 2 ^ names.length ∧
          e.evaluate (ofMask names m).valuation = .ok true} m →
        (solve threshold e).run j = (.ok (some (ofMask names m)),
          j.writeAll (opened ++ [.satisfied (ofMask names m) (m + 1 : Nat)]))) ∧
      (((solve threshold e).run j).1 = .ok none ↔
        ¬∃ v : Valuation, v.Covers e ∧ e.evaluate v = .ok true) ∧
      (((solve threshold e).run j).1 = .ok none → ((solve threshold e).run j).2 =
        j.writeAll (opened ++ [.unsatisfied (2 ^ names.length : Nat)]))) ∧
    (10 ^ digitLimit ≤ 2 ^ names.length → (solve threshold e).run j =
      (.error .tooManyDigits, j.obtain Journal.defaultName)) := by
  intro names opened
  refine ⟨⟨e.nodup_discoverVariables, fun x => Formula.mem_discoverVariables⟩,
    fun m => ⟨keys_ofMask _ m, valuation_ofMask e.nodup_discoverVariables m⟩, fun hlt => ?_,
    fun hle => run_solve_of_le threshold hle j⟩
  rcases e.search_cases with ⟨m, hleast, hsearch⟩ | ⟨hfalse, hsearch⟩
  · have hrun := reports_solve threshold hlt hsearch hleast.1.1 j
    refine ⟨⟨_, congrArg Prod.fst hrun⟩, fun m' hm' => ?_, ⟨fun hnone => ?_, fun hnone => ?_⟩,
      fun hnone => ?_⟩
    · obtain rfl := hleast.unique hm'
      exact hrun
    · cases (congrArg Prod.fst hrun).symm.trans hnone
    · exact absurd ⟨_, covers_ofMask e m, hleast.1.2⟩ hnone
    · cases (congrArg Prod.fst hrun).symm.trans hnone
  · have hrun := reports_solve threshold hlt hsearch (Nat.le_refl _) j
    refine ⟨⟨_, congrArg Prod.fst hrun⟩, fun m hm => ?_,
      ⟨fun _ => ?_, fun _ => congrArg Prod.fst hrun⟩, fun _ => congrArg Prod.snd hrun⟩
    · obtain ⟨hbound, htrue⟩ := hm.1
      cases (hfalse m hbound).symm.trans htrue
    · rintro ⟨v, hv, htrue⟩
      cases (Formula.evaluate_eq_false_of_masks hfalse hv).symm.trans htrue

/-- The right operand is found first, so that `p ∧ ¬q` is true at the third mask. The assignments of
14285 variables are too many to be counted. -/
theorem solve_least_third :
    let e : Formula := .conj [.var "p", .neg (.var "q")]
    let many : Formula := .disj ((numbered 14285).map .var)
    (e.discoverVariables = ["q", "p"] ∧ 2 ^ e.discoverVariables.length < 10 ^ digitLimit ∧
      IsLeast {m | m < 2 ^ e.discoverVariables.length ∧
        e.evaluate (ofMask e.discoverVariables m).valuation = .ok true} 2 ∧
      ∀ j : Journal, (solve 20 e).run j = (.ok (some (ofMask e.discoverVariables 2)),
        j.writeAll [.searching 2 4, .satisfied (ofMask e.discoverVariables 2) 3])) ∧
    10 ^ digitLimit ≤ 2 ^ many.discoverVariables.length ∧
      ∀ j : Journal, (solve 20 many).run j =
        (.error .tooManyDigits, j.obtain Journal.defaultName) := by
  intro e many
  have hvars : e.discoverVariables = ["q", "p"] := by
    simp [e, Formula.discoverVariables, Formula.discoverFrom, Formula.operands]
  have heval : ∀ m, e.evaluate (ofMask e.discoverVariables m).valuation =
      .ok (m.testBit 1 && !m.testBit 0) := by
    intro m
    rw [Formula.evaluate_eq_truth (covers_ofMask e m), hvars]
    simp [e, Valuation.total, valuation_ofMask_cons, Nat.testBit_succ]
  have hleast : IsLeast {m | m < 2 ^ e.discoverVariables.length ∧
      e.evaluate (ofMask e.discoverVariables m).valuation = .ok true} 2 := by
    refine ⟨⟨by rw [hvars]; decide, heval 2⟩, fun m hm => ?_⟩
    have htrue := hm.2
    rw [heval] at htrue
    by_contra hlt
    obtain rfl | rfl : m = 0 ∨ m = 1 := by omega
    · cases htrue
    · cases htrue
  have hfits : 2 ^ e.discoverVariables.length < 10 ^ digitLimit :=
    two_pow_lt_iff.2 (by rw [hvars]; decide)
  have hopening : opening 20 e.discoverVariables.length = [.searching 2 4] := by
    rw [hvars]
    rfl
  have hmany : 10 ^ digitLimit ≤ 2 ^ many.discoverVariables.length :=
    limit_le_of_numbered mem_occurrences_disj_var
  refine ⟨⟨hvars, hfits, hleast, fun j => ?_⟩, hmany, fun j => (solve_least 20 many j).2.2.2 hmany⟩
  have hrun := ((solve_least 20 e j).2.2.1 hfits).2.1 2 hleast
  rwa [hopening] at hrun

/-- A disjunction of 14285 variables has a satisfying assignment, the second one that would be
tried. The search fails before it tries any, at every level and for every threshold. -/
theorem solve_many_disjuncts :
    let e : Formula := .disj ((numbered 14285).map .var)
    IsLeast {m | m < 2 ^ e.discoverVariables.length ∧
      e.evaluate (ofMask e.discoverVariables m).valuation = .ok true} 1 ∧
    ∀ (threshold : Int) (j : Journal), ((solve threshold e).run j).1 = .error .tooManyDigits := by
  intro e
  have hmany : 10 ^ digitLimit ≤ 2 ^ e.discoverVariables.length :=
    limit_le_of_numbered mem_occurrences_disj_var
  have hnames : numbered 14285 ≠ [] := by
    rw [← List.length_pos_iff, length_numbered]
    decide
  exact ⟨isLeast_disj_var hnames, fun threshold j =>
    congrArg Prod.fst (run_solve_of_le threshold hmany j)⟩

end Report

end Clausal
