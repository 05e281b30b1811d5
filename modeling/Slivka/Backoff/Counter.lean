/-
  Slivka.Backoff.Counter — `BackoffCounter` (slivka/utils.py): the delay generator a
  poller draws from to pace its retries.

  The counter holds an iterator `_counter`, the try count `_tries`, the cap `max_tries`
  and the last delay `current`. The iterator is the class's shared `itertools.repeat(0)`
  or the `reversed(range(current))` that the last `failure()` installed; `__next__` draws
  from it and, on `StopIteration`, calls `reset()` and draws from the zeros. Python's
  integers are unbounded and may be negative, so `_tries`, `max_tries` and `current` are
  `Int`; `failure()` computes `1 << _tries`, which raises `ValueError` for a negative
  shift count.

  This module is the code; `Slivka.Backoff.Invariant` and `Slivka.Backoff.Poller` prove
  what its runs do.
-/

import Mathlib.Algebra.Group.Int
import Mathlib.Order.Basic

namespace Slivka.Backoff

/-- The Python exception a call can raise. -/
inductive PyError where
  /-- `1 << n` with `n < 0`: "negative shift count". -/
  | valueError
  deriving DecidableEq, Repr

/-- The iterator in `_counter`: `itertools.repeat(0)`, or a `reversed(range(c))` with
    `left` values still to yield (`left - 1`, ..., `0`). -/
inductive Iter where
  | repeatZero
  | reversedRange (left : Nat)
  deriving DecidableEq, Repr

/-- `next(it)`: the value and the advanced iterator, `none` for `StopIteration`. -/
def Iter.next : Iter → Option (Int × Iter)
  | .repeatZero => some (0, .repeatZero)
  | .reversedRange 0 => none
  | .reversedRange (n + 1) => some (n, .reversedRange n)

/-- `reversed(range(c))`: the range is empty when `c ≤ 0`. -/
def reversedRange (c : Int) : Iter := .reversedRange c.toNat

/-- `1 << n` in Python. -/
def shiftOne (n : Int) : Except PyError Int :=
  if n < 0 then .error .valueError else .ok (2 ^ n.toNat)

structure BackoffCounter where
  counter : Iter
  tries : Int
  maxTries : Int
  current : Int
  deriving DecidableEq, Repr

namespace BackoffCounter

/-- `BackoffCounter(max_tries)`; the source's default cap is `64`. -/
def init (maxTries : Int) : BackoffCounter := ⟨.repeatZero, 0, maxTries, 0⟩

def reset (s : BackoffCounter) : BackoffCounter := { s with counter := .repeatZero, tries := 0, current := 0 }

/-- `self.current = next(self._counter)`, unless the iterator is exhausted. -/
def draw (s : BackoffCounter) : Option (Int × BackoffCounter) :=
  s.counter.next.map fun (v, it) => (v, { s with counter := it, current := v })

/-- `__next__`: on `StopIteration`, `reset()` and a draw from the zeros, which is `0`
    and leaves the state `reset()` left (`draw_reset`). -/
def next (s : BackoffCounter) : Int × BackoffCounter :=
  match s.draw with
  | some r => r
  | none => (0, s.reset)

def giveUp (s : BackoffCounter) : Bool := decide (s.maxTries ≤ s.tries)

/-- `failure()`: the shift raises before `current` and `_counter` are assigned. -/
def failure (s : BackoffCounter) : Except PyError BackoffCounter := do
  let tries := min s.maxTries (s.tries + 1)
  let current ← shiftOne tries
  pure { s with tries := tries, current := current, counter := reversedRange current }

theorem draw_reset (s : BackoffCounter) : s.reset.draw = some (0, s.reset) := rfl

@[simp] theorem init_maxTries (M : Int) : (init M).maxTries = M := rfl
@[simp] theorem init_tries (M : Int) : (init M).tries = 0 := rfl
@[simp] theorem reset_maxTries (s : BackoffCounter) : s.reset.maxTries = s.maxTries := rfl
@[simp] theorem reset_tries (s : BackoffCounter) : s.reset.tries = 0 := rfl
@[simp] theorem reset_counter (s : BackoffCounter) : s.reset.counter = .repeatZero := rfl

theorem reset_eq_init (s : BackoffCounter) : s.reset = init s.maxTries := rfl

/-- What one `next()` call does, by the iterator's state. -/
theorem next_repeatZero (s : BackoffCounter) (h : s.counter = .repeatZero) :
    s.next = (0, { s with current := 0 }) := by
  simp [next, draw, h, Iter.next]

theorem next_exhausted (s : BackoffCounter) (h : s.counter = .reversedRange 0) :
    s.next = (0, s.reset) := by
  simp [next, draw, h, Iter.next]

theorem next_countdown (s : BackoffCounter) (n : Nat) (h : s.counter = .reversedRange (n + 1)) :
    s.next = ((n : Int), { s with counter := .reversedRange n, current := n }) := by
  simp [next, draw, h, Iter.next]

/-- Everything one `next()` call can do. -/
theorem next_cases (s : BackoffCounter) :
    (s.counter = .repeatZero ∧ s.next = (0, { s with current := 0 })) ∨
    (s.counter = .reversedRange 0 ∧ s.next = (0, s.reset)) ∨
    (∃ n : Nat, s.counter = .reversedRange (n + 1) ∧
      s.next = ((n : Int), { s with counter := .reversedRange n, current := n })) := by
  rcases s with ⟨_ | _ | n, t, m, c⟩
  · exact .inl ⟨rfl, rfl⟩
  · exact .inr (.inl ⟨rfl, rfl⟩)
  · exact .inr (.inr ⟨n, rfl, rfl⟩)

@[simp] theorem next_maxTries (s : BackoffCounter) : s.next.2.maxTries = s.maxTries := by
  rcases s with ⟨_ | _ | n, t, m, c⟩ <;> rfl

/-- `failure()` succeeds exactly when the new try count is not negative. -/
theorem failure_ok (s : BackoffCounter) (h : 0 ≤ min s.maxTries (s.tries + 1)) :
    s.failure = .ok ⟨.reversedRange (2 ^ (min s.maxTries (s.tries + 1)).toNat),
      min s.maxTries (s.tries + 1), s.maxTries, 2 ^ (min s.maxTries (s.tries + 1)).toNat⟩ := by
  have hn : ¬ min s.maxTries (s.tries + 1) < 0 := by omega
  simp only [failure, shiftOne, hn, if_false, reversedRange]
  norm_cast

theorem failure_error (s : BackoffCounter) (h : min s.maxTries (s.tries + 1) < 0) :
    s.failure = .error .valueError := by
  simp [failure, shiftOne, h]

/-! ## Runs of calls -/

inductive Op where
  | next
  | failure
  | reset
  deriving DecidableEq, Repr

/-- One call, with the value `next()` returned. -/
def step (s : BackoffCounter) : Op → Except PyError (Option Int × BackoffCounter)
  | .next => .ok (some s.next.1, s.next.2)
  | .failure => (fun s' => (none, s')) <$> s.failure
  | .reset => .ok (none, s.reset)

/-- The calls `ops` from `s`: the values the `next()` calls returned, and the last state. -/
def run (s : BackoffCounter) : List Op → Except PyError (List Int × BackoffCounter)
  | [] => .ok ([], s)
  | op :: ops => do
    let (o, s') ← s.step op
    let (vs, t) ← run s' ops
    pure (o.toList ++ vs, t)

theorem run_cons {s s' : BackoffCounter} {op : Op} {o : Option Int} {ops : List Op} {vs : List Int}
    {t : BackoffCounter} (hs : s.step op = .ok (o, s')) (hr : s'.run ops = .ok (vs, t)) :
    s.run (op :: ops) = .ok (o.toList ++ vs, t) := by
  simp only [run, hs, hr, bind, Except.bind, pure, Except.pure]

/-- A state some run from `BackoffCounter(M)` reaches. -/
def Reachable (M : Int) (s : BackoffCounter) : Prop := ∃ ops vs, run (init M) ops = .ok (vs, s)

end BackoffCounter

end Slivka.Backoff
