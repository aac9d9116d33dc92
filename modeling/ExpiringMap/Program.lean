/-!
# Programs of elementary acts

What a map does on behalf of a caller takes several steps, and another thread or a hook may
come in between.  A program says which steps those are: it is finished with a result, or it
performs one act and goes on with the answer.  How an act is performed is no part of a
program, so the same program can be run through at once (`Program.run`) or act by act
between the acts of others.
-/

namespace ExpiringMap

/-- A program over the acts `A`, of which `a` is answered by a value of type `R a`. -/
inductive Program (A : Type) (R : A → Type) (α : Type) : Type
  | done (result : α)
  | act (a : A) (next : R a → Program A R α)

namespace Program

variable {A : Type} {R : A → Type} {α β γ σ : Type}

/-- One program after the other, the second given the result of the first. -/
protected def bind : Program A R α → (α → Program A R β) → Program A R β
  | .done result, next => next result
  | .act a rest, next => .act a fun answer => (rest answer).bind next

instance : Monad (Program A R) where
  pure := .done
  bind := Program.bind

/-- Runs a program through, given how a state answers an act and changes with it. -/
def run (respond : (a : A) → σ → R a × σ) : Program A R α → σ → α × σ
  | .done result, state => (result, state)
  | .act a next, state =>
      let (answer, state) := respond a state
      (next answer).run respond state

/-! ## Laws -/

@[simp] theorem pure_eq_done (result : α) : (pure result : Program A R α) = .done result := rfl

@[simp] theorem bind_eq (program : Program A R α) (next : α → Program A R β) :
    program >>= next = program.bind next := rfl

@[simp] theorem done_bind (result : α) (next : α → Program A R β) :
    (Program.done result).bind next = next result := rfl

@[simp] theorem act_bind (a : A) (rest : R a → Program A R α) (next : α → Program A R β) :
    (Program.act a rest).bind next = .act a fun answer => (rest answer).bind next := rfl

@[simp] theorem bind_done (program : Program A R α) : program.bind .done = program := by
  induction program with
  | done result => rfl
  | act a rest ih => simp [ih]

theorem bind_assoc (program : Program A R α) (next : α → Program A R β)
    (last : β → Program A R γ) :
    (program.bind next).bind last = program.bind fun result => (next result).bind last := by
  induction program with
  | done result => rfl
  | act a rest ih => simp [ih]

instance : LawfulMonad (Program A R) :=
  LawfulMonad.mk' _ (fun program => bind_done program) (fun _ _ => rfl)
    (fun program next last => bind_assoc program next last)

variable (respond : (a : A) → σ → R a × σ)

@[simp] theorem run_done (result : α) (state : σ) :
    (Program.done result : Program A R α).run respond state = (result, state) := rfl

@[simp] theorem run_act (a : A) (next : R a → Program A R α) (state : σ) :
    (Program.act a next).run respond state =
      (next (respond a state).1).run respond (respond a state).2 := rfl

@[simp] theorem run_bind (program : Program A R α) (next : α → Program A R β) (state : σ) :
    (program.bind next).run respond state =
      (next (program.run respond state).1).run respond (program.run respond state).2 := by
  induction program generalizing state with
  | done result => rfl
  | act a rest ih => simp [ih]

end Program

end ExpiringMap
