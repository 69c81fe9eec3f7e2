/-!
Composing functions from left to right.

**Main result**: a pipeline that keeps what each function gave ends as the plain one does, and a
pipeline in two parts keeps what the parts keep.
-/

namespace Clausal

variable {m : Type → Type} [Monad m] {α ε : Type}

/-- Feed a value through the functions, from left to right. -/
def pipe (x : α) (fs : List (α → m α)) : m α :=
  fs.foldlM (fun x f => f x) x

/-- Feed a value through the functions and keep what each of them gave. A failure ends the way. -/
def stages : α → List (α → m (Except ε α)) → m (List α × Except ε α)
  | x, [] => pure ([], .ok x)
  | x, f :: fs => do
    match ← f x with
    | .error err => pure ([], .error err)
    | .ok y =>
      let (ys, r) ← stages y fs
      pure (y :: ys, r)

section Stages

variable [LawfulMonad m]

theorem snd_stages (x : α) (fs : List (α → m (Except ε α))) :
    Prod.snd <$> stages x fs = (pipe x (fs.map fun f y => ExceptT.mk (f y))).run := by
  induction fs generalizing x with
  | nil => simp [stages, pipe]
  | cons f fs ih =>
    simp only [pipe] at ih
    simp only [stages, pipe, List.map_cons, List.foldlM_cons, ExceptT.run_bind, map_bind]
    refine bind_congr fun r => ?_
    cases r with
    | error err => simp
    | ok y => simp [← ih]

theorem stages_append (x : α) (fs gs : List (α → m (Except ε α))) :
    stages x (fs ++ gs) = (do
      match ← stages x fs with
      | (ys, .error err) => pure (ys, .error err)
      | (ys, .ok y) => (fun p => (ys ++ p.1, p.2)) <$> stages y gs) := by
  induction fs generalizing x with
  | nil => simp [stages]
  | cons f fs ih =>
    simp only [stages, List.cons_append, ih, bind_assoc]
    refine bind_congr fun r => ?_
    cases r with
    | error err => simp
    | ok y =>
      simp only [bind_assoc]
      refine bind_congr fun p => ?_
      obtain ⟨ys, err | z⟩ := p
      · simp
      · simp

end Stages

end Clausal
