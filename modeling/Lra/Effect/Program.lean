import Mathlib.Logic.Function.Basic

/-!
# Programs over an interface of operations

A signature lists operations and the type of answer each one gives. A program is
a finite tree of operations, so its control flow is ordinary Lean while the
meaning of an operation is chosen later: run to completion, run under faults, or
interleaved with other programs one operation at a time.
-/

namespace Effect

/-- The operations a program may perform and the answer type of each. -/
structure Signature where
  Op : Type
  Res : Op → Type

/-- A program either returns or performs one operation and continues with its answer. -/
inductive Program (S : Signature) (α : Type) : Type where
  | ret (value : α)
  | op (o : S.Op) (next : S.Res o → Program S α)

namespace Program

variable {S T : Signature} {α β γ : Type}

/-- Sequential composition grafts the continuation at every leaf. -/
protected def bind : Program S α → (α → Program S β) → Program S β
  | .ret a, f => f a
  | .op o next, f => .op o fun r => (next r).bind f

instance : Monad (Program S) where
  pure := .ret
  bind := Program.bind

/-- A program of one operation. -/
def perform (o : S.Op) : Program S (S.Res o) := .op o .ret

/-- Some answers lead the program to the operation `o`. -/
def May (o : S.Op) : Program S α → Prop
  | .ret _ => False
  | .op o' next => o' = o ∨ ∃ r, (next r).May o

@[simp] theorem pure_eq (a : α) : (pure a : Program S α) = .ret a := rfl

@[simp] theorem ret_bind (a : α) (f : α → Program S β) :
    (Program.ret a : Program S α) >>= f = f a := rfl

@[simp] theorem op_bind (o : S.Op) (next : S.Res o → Program S α) (f : α → Program S β) :
    (Program.op o next) >>= f = .op o fun r => next r >>= f := rfl

@[simp] theorem perform_bind (o : S.Op) (f : S.Res o → Program S β) :
    perform o >>= f = .op o f := rfl

theorem bind_ret (p : Program S α) : p >>= Program.ret = p := by
  induction p with
  | ret a => rfl
  | op o next ih => exact congrArg (Program.op o) (funext ih)

theorem bind_bind (p : Program S α) (f : α → Program S β) (g : β → Program S γ) :
    p >>= f >>= g = p >>= fun a => f a >>= g := by
  induction p with
  | ret a => rfl
  | op o next ih => exact congrArg (Program.op o) (funext ih)

instance : LawfulMonad (Program S) :=
  LawfulMonad.mk' (Program S) bind_ret (fun _ _ => rfl) bind_bind

end Program

end Effect
