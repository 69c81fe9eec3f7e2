import Clausal.Proofs.NormalForm.FixedPoints

/-!
Eliminating implications, by recursion on the formula.

The pass builds a node whose operands still hold implications, and takes the parts from formulas
that are unrolled on their own, both sides of an equivalence twice. **Main result**: what it puts
together is the formula with every implication and every equivalence spelled out, which leaves none
of them, and changes nothing only if there was none.
-/

namespace Clausal

namespace Formula

mutual

/-- The formula with implications and equivalences spelled out. -/
def spelledOut : Formula → Formula
  | const b => const b
  | var x => var x
  | neg e => neg (spelledOut e)
  | conj es => conj (spelledOutAll es)
  | disj es => disj (spelledOutAll es)
  | imp a b => disj [neg (spelledOut a), spelledOut b]
  | iff a b =>
    conj [disj [neg (spelledOut a), spelledOut b], disj [neg (spelledOut b), spelledOut a]]

def spelledOutAll : List Formula → List Formula
  | [] => []
  | e :: es => spelledOut e :: spelledOutAll es

end

lemma spelledOutAll_eq_map (es : List Formula) : spelledOutAll es = es.map spelledOut := by
  induction es with
  | nil => rfl
  | cons e es ih => rw [spelledOutAll, ih, List.map_cons]

end Formula

namespace NormalForm

open Engine Formula

namespace Implications

variable {a b a' b' : Formula}

lemma eval_neg (ha : fold.eval a = .ok a') : fold.eval (.neg a) = .ok (.neg a') := by
  have hplan : fold.plan (.neg a) = .ok (.build (.neg a) [a]) := rfl
  rw [Fold.eval_of_build _ hplan, List.mapM_cons, ha]
  rfl

/-- The negated left side is unrolled, although it does not stand in the formula. -/
lemma eval_imp (ha : fold.eval a = .ok a') (hb : fold.eval b = .ok b') :
    fold.eval (.imp a b) = .ok (.disj [.neg a', b']) := by
  have hplan : fold.plan (.imp a b) = .ok (.build (.disj [.neg a, b]) [.neg a, b]) := rfl
  rw [Fold.eval_of_build _ hplan, List.mapM_cons, eval_neg ha, List.mapM_cons, hb]
  rfl

lemma eval_iff (ha : fold.eval a = .ok a') (hb : fold.eval b = .ok b') :
    fold.eval (.iff a b) = .ok (.conj [.disj [.neg a', b'], .disj [.neg b', a']]) := by
  have hplan : fold.plan (.iff a b) =
      .ok (.build (.conj [.imp a b, .imp b a]) [.imp a b, .imp b a]) := rfl
  rw [Fold.eval_of_build _ hplan, List.mapM_cons, eval_imp ha hb, List.mapM_cons, eval_imp hb ha]
  rfl

lemma eval_eq_spelledOut (e : Formula) : fold.eval e = .ok e.spelledOut := by
  induction e with
  | const b => exact Fold.eval_of_value _ rfl
  | var x => exact Fold.eval_of_value _ rfl
  | neg e ih => exact eval_neg ih
  | conj es ih =>
    have hnode := Fold.eval_of_node_ok (F := fold) (e := .conj es) rfl ih
    rw [hnode, spelledOut, spelledOutAll_eq_map]
    rfl
  | disj es ih =>
    have hnode := Fold.eval_of_node_ok (F := fold) (e := .disj es) rfl ih
    rw [hnode, spelledOut, spelledOutAll_eq_map]
    rfl
  | imp a b iha ihb => exact eval_imp iha ihb
  | iff a b iha ihb => exact eval_iff iha ihb

end Implications

lemma eliminateImplications_eq (e : Formula) : eliminateImplications e = .ok e.spelledOut := by
  rw [eliminateImplications, Fold.apply_eq_eval, Implications.eval_eq_spelledOut]

lemma plain_spelledOut (e : Formula) : e.spelledOut.Plain :=
  (implications_standsFor.of_ok (eliminateImplications_eq e)).1

/-- **Eliminating implications spells them out.** The result is that of the recursion on the
formula. It holds no implication and no equivalence, and it is the formula itself exactly if that
holds none. -/
theorem eliminateImplications_spelledOut (e : Formula) :
    eliminateImplications e = .ok e.spelledOut ∧ e.spelledOut.Plain ∧
      (e.spelledOut = e ↔ e.Plain) := by
  refine ⟨eliminateImplications_eq e, plain_spelledOut e, fun h => ?_, fun h => ?_⟩
  · have hplain := plain_spelledOut e
    rwa [h] at hplain
  · have hself := eliminateImplications_of_plain h
    exact Except.ok.inj ((eliminateImplications_eq e).symm.trans hself)

end NormalForm

end Clausal
