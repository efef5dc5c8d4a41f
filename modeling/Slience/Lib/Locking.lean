import Mathlib.Tactic

/-!
# Code that locks and unlocks by hand

A thread computes on data that a mutex protects, and locks and unlocks the mutex itself.  The
other threads change the data while it does not have the mutex, which it sees the next time it
gets it.  `Keeps n m p` says how often the thread has the mutex before and behind `p`; its rules
follow the statements of a function, down to the block that is left by a `break`.
-/

namespace Slience

/-- The data as one thread sees them.  It has the mutex `held` times; `held` is empty from where it
unlocked without having it.  `others` is what is done to the data each time before it gets it. -/
structure Holder (σ : Type*) where
  state : σ
  held : Option ℕ
  others : List (σ → σ)

/-- The data that the thread finds when it gets the mutex next. -/
def Holder.found {σ : Type*} (h : Holder σ) : σ :=
  match h.others with
  | [] => h.state
  | f :: _ => f h.state

theorem Holder.found_alone {σ : Type*} {h : Holder σ} (hh : h.others = []) : h.found = h.state := by
  rw [found, hh]

/-- A thread that does not have the mutex. -/
def Holder.enter {σ : Type*} (s : σ) (others : List (σ → σ)) : Holder σ := ⟨s, some 0, others⟩

def Locking (σ : Type) (α : Type) := Holder σ → α × Holder σ

/-- How a block `do { … } while (false)` is left: by a `break` or its end, or by a `return`. -/
inductive Exit (α : Type)
  | brk (a : α)
  | ret (a : α)

/-- A `break` still has the mutex once more than what is left at the end. -/
def Exit.held {α : Type} (k : ℕ) : Exit α → ℕ
  | brk _ => k + 1
  | ret _ => k

namespace Locking

variable {σ α β : Type}

instance : Monad (Locking σ) where
  pure a h := (a, h)
  bind p f h := f (p h).1 (p h).2

def look : Locking σ σ := fun h ↦ (h.state, h)

def change (f : σ → σ) : Locking σ Unit := fun h ↦ ((), { h with state := f h.state })

def lock : Locking σ Unit := fun h ↦ ((), ⟨h.found, h.held.map (· + 1), h.others.tail⟩)

/-- What is left of `held` behind an `unlock`. -/
def released : Option ℕ → Option ℕ
  | some (n + 1) => some n
  | _ => none

def unlock : Locking σ Unit := fun h ↦ ((), { h with held := released h.held })

/-- `do { body } while (false); unlock`, for a body that gives the result of its function. -/
def leaving (body : Locking σ (Exit α)) : Locking σ α := do
  match ← body with
  | .brk a =>
      unlock
      return a
  | .ret a => return a

/-- A thread that has the mutex `n` times has it `m a` times behind a `p` with the result `a`. -/
def Keeps (n : ℕ) (m : α → ℕ) (p : Locking σ α) : Prop :=
  ∀ h : Holder σ, h.held = some n → (p h).2.held = some (m (p h).1)

@[simp] theorem pure_apply (a : α) (h : Holder σ) : (pure a : Locking σ α) h = (a, h) := rfl

@[simp] theorem bind_apply (p : Locking σ α) (f : α → Locking σ β) (h : Holder σ) :
    (p >>= f) h = f (p h).1 (p h).2 := rfl

@[simp] theorem look_apply (h : Holder σ) : look h = (h.state, h) := rfl

@[simp] theorem change_apply (f : σ → σ) (h : Holder σ) :
    change f h = ((), { h with state := f h.state }) := rfl

@[simp] theorem lock_apply (h : Holder σ) :
    lock h = ((), ⟨h.found, h.held.map (· + 1), h.others.tail⟩) := rfl

@[simp] theorem unlock_apply (h : Holder σ) :
    unlock h = ((), { h with held := released h.held }) := rfl

@[simp] theorem released_none : released none = none := rfl

@[simp] theorem released_zero : released (some 0) = none := rfl

@[simp] theorem released_succ (n : ℕ) : released (some (n + 1)) = some n := rfl

theorem leaving_brk {body : Locking σ (Exit α)} {h : Holder σ} {a : α}
    (he : (body h).1 = .brk a) : leaving body h = (a, (unlock (body h).2).2) := by
  rw [leaving, bind_apply, he]
  rfl

theorem leaving_ret {body : Locking σ (Exit α)} {h : Holder σ} {a : α}
    (he : (body h).1 = .ret a) : leaving body h = (a, (body h).2) := by
  rw [leaving, bind_apply, he]
  rfl

namespace Keeps

variable {n k : ℕ} {m : α → ℕ}

theorem pure (a : α) (h : m a = n) : Keeps n m (pure a : Locking σ α) := by
  intro s hs
  rw [pure_apply, hs, h]

theorem bind {l : β → ℕ} {p : Locking σ α} {f : α → Locking σ β} (hp : Keeps n m p)
    (hf : ∀ a, Keeps (m a) l (f a)) : Keeps n l (p >>= f) := by
  intro s hs
  exact hf _ _ (hp s hs)

theorem look : Keeps n (fun _ ↦ n) (look : Locking σ σ) := fun _ hs ↦ hs

theorem change (f : σ → σ) : Keeps n (fun _ ↦ n) (change f) := fun _ hs ↦ hs

theorem lock : Keeps n (fun _ ↦ n + 1) (lock : Locking σ Unit) := by
  intro s hs
  rw [lock_apply, hs, Option.map_some]

theorem unlock : Keeps (n + 1) (fun _ ↦ n) (unlock : Locking σ Unit) := by
  intro s hs
  rw [unlock_apply, hs, released_succ]

theorem ite {c : Prop} [Decidable c] {p q : Locking σ α} (hp : c → Keeps n m p)
    (hq : ¬ c → Keeps n m q) : Keeps n m (if c then p else q) := by
  split
  · exact hp ‹_›
  · exact hq ‹_›

/-- A block is left with the mutex by each `break`, and without it by each `return`. -/
theorem leaving {body : Locking σ (Exit α)} (h : Keeps n (Exit.held k) body) :
    Keeps n (fun _ ↦ k) (leaving body) := by
  intro s hs
  have hbody := h s hs
  cases he : (body s).1 with
  | brk a =>
      rw [he] at hbody
      rw [leaving_brk he, unlock_apply, hbody, Exit.held, released_succ]
  | ret a =>
      rw [he] at hbody
      rw [leaving_ret he, hbody, Exit.held]

end Keeps

end Locking

end Slience
