/-
  Webstore.Sched.Prog

  Thread programs over one shared resource guarded by one mutex.  A program
  is a tree: it has answered, or it takes the mutex, or it gives it back, or
  it performs one operation on the resource and goes on with the value that
  comes back.  Everything a thread computes on its own stays ordinary Lean
  between two such steps.

  Nothing here knows what the operations are: a signature `Sig` lists them
  with the type each one returns.
-/
import Webstore.Lists

namespace Webstore.Sched

/-- The operations on the shared resource and the type each one returns. -/
structure Sig where
  Op : Type
  Ret : Op → Type

/-- What one thread has still to do before it answers with an `α`. -/
inductive Prog (S : Sig) (α : Type) where
  | done (a : α)
  | lock (k : Prog S α)
  | unlock (k : Prog S α)
  | op (o : S.Op) (k : S.Ret o → Prog S α)

namespace Prog

variable {S : Sig} {α β : Type}

/-- Run `p`, then go on with its answer. -/
def bind : Prog S α → (α → Prog S β) → Prog S β
  | .done a, f => f a
  | .lock k, f => .lock (k.bind f)
  | .unlock k, f => .unlock (k.bind f)
  | .op o k, f => .op o fun v => (k v).bind f

instance : Monad (Prog S) where
  pure := .done
  bind := bind

/-- Take the mutex. -/
def acquire : Prog S Unit := .lock (.done ())

/-- Give the mutex back. -/
def release : Prog S Unit := .unlock (.done ())

/-- Perform one operation and return what it returns. -/
def perform (o : S.Op) : Prog S (S.Ret o) := .op o .done

/-- The thread has answered. -/
def isDone : Prog S α → Bool
  | .done _ => true
  | _ => false

/-- The answer, once there is one. -/
def answer? : Prog S α → Option α
  | .done a => some a
  | _ => none

@[simp] theorem pure_eq (a : α) : (pure a : Prog S α) = .done a := rfl

@[simp] theorem done_bind (a : α) (f : α → Prog S β) : (Prog.done a >>= f) = f a := rfl

@[simp] theorem acquire_bind (f : Unit → Prog S β) : (acquire >>= f) = .lock (f ()) := rfl

@[simp] theorem release_bind (f : Unit → Prog S β) : (release >>= f) = .unlock (f ()) := rfl

@[simp] theorem perform_bind (o : S.Op) (f : S.Ret o → Prog S β) :
    (perform o >>= f) = .op o f := rfl

@[simp] theorem lock_bind (k : Prog S α) (f : α → Prog S β) :
    (Prog.lock k >>= f) = .lock (k >>= f) := rfl

@[simp] theorem unlock_bind (k : Prog S α) (f : α → Prog S β) :
    (Prog.unlock k >>= f) = .unlock (k >>= f) := rfl

@[simp] theorem op_bind (o : S.Op) (k : S.Ret o → Prog S α) (f : α → Prog S β) :
    (Prog.op o k >>= f) = .op o fun v => k v >>= f := rfl

@[simp] theorem isDone_done (a : α) : (Prog.done a : Prog S α).isDone = true := rfl

@[simp] theorem isDone_lock (k : Prog S α) : (Prog.lock k).isDone = false := rfl

@[simp] theorem isDone_unlock (k : Prog S α) : (Prog.unlock k).isDone = false := rfl

@[simp] theorem isDone_op (o : S.Op) (k : S.Ret o → Prog S α) : (Prog.op o k).isDone = false := rfl

theorem isDone_iff {p : Prog S α} : p.isDone = true ↔ ∃ a, p = .done a := by
  cases p <;> simp [isDone]

/-- Programs that follow one another can be grouped in either way. -/
theorem bind_assoc {γ : Type} (p : Prog S α) (f : α → Prog S β) (g : β → Prog S γ) :
    ((p >>= f) >>= g) = (p >>= fun a => f a >>= g) := by
  induction p with
  | done a => rfl
  | lock k ih => exact congrArg Prog.lock ih
  | unlock k ih => exact congrArg Prog.unlock ih
  | op o k ih => exact congrArg (Prog.op o) (funext ih)

theorem answer?_eq_some {p : Prog S α} {a : α} : p.answer? = some a ↔ p = .done a := by
  cases p <;> simp [answer?]

/-- The program takes and gives back the mutex by turns; `b` says whether it
    holds it now. -/
def Bracketed : Bool → Prog S α → Prop
  | b, .done _ => b = false
  | b, .lock p => b = false ∧ p.Bracketed true
  | b, .unlock p => b = true ∧ p.Bracketed false
  | b, .op _ k => ∀ v, (k v).Bracketed b

theorem Bracketed.ite {c : Prop} [Decidable c] {b : Bool} {p q : Prog S α} (hp : p.Bracketed b)
    (hq : q.Bracketed b) : (if c then p else q).Bracketed b := by
  split
  · exact hp
  · exact hq

/-- A bracketed program may be followed by others that begin outside. -/
theorem Bracketed.bind {b : Bool} {p : Prog S α} (h : p.Bracketed b) {f : α → Prog S β}
    (hf : ∀ a, (f a).Bracketed false) : (p >>= f).Bracketed b := by
  induction p generalizing b with
  | done a =>
      obtain rfl : b = false := h
      exact hf a
  | lock k ih => exact ⟨h.1, ih h.2⟩
  | unlock k ih => exact ⟨h.1, ih h.2⟩
  | op o k ih => exact fun v => ih v (h v)

end Prog

end Webstore.Sched
