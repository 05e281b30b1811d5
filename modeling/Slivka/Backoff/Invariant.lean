/-
  Slivka.Backoff.Invariant — what every run of a `BackoffCounter` keeps.

  `f` counts the `failure()` calls since the most recent reset event: construction,
  `reset()`, or a `next()` made once the countdown the last `failure()` installed has
  yielded all its values (the `StopIteration` branch of `__next__`).

  Proved, for every cap `M ≥ 0` and every finite sequence of calls:
  - `tries_eq_min_failures`: no call raises, the try count is `min M f`, so it lies in
    `[0, M]` and `give_up` holds iff `f ≥ M`; right after a `failure()`, `current` is
    `2 ^ tries`; no `next()` returns more than `2 ^ M - 1`.
  - `failure_then_countdown`: from every reachable state, `failure()` sets `current` to
    `2 ^ m` with `m = min M (tries + 1)`; the `j`-th `next()` after it returns
    `2 ^ m - j` while `j ≤ 2 ^ m` and `0` after, and from the `(2 ^ m + 1)`-th on the
    counter is a fresh `BackoffCounter(M)`.
  - `negative_cap_failure_raises`: for a cap `M < 0`, `give_up` holds from the start and a
    sequence of calls raises `ValueError` exactly when it calls `failure()`.
-/

import Slivka.Backoff.Counter

namespace Slivka.Backoff.BackoffCounter

/-- `f` after the call `op` made in state `s`. -/
def countFailures (f : Nat) (s : BackoffCounter) : Op → Nat
  | .failure => f + 1
  | .reset => 0
  | .next => if s.counter = .reversedRange 0 then 0 else f

/-- `f` after the calls `ops` from `s`, counting from `f`. -/
def failuresSince (s : BackoffCounter) (f : Nat) : List Op → Nat
  | [] => f
  | op :: ops =>
    match s.step op with
    | .ok (_, s') => failuresSince s' (countFailures f s op) ops
    | .error _ => countFailures f s op

/-- The invariant of a state whose count is `f`. -/
structure Inv (M : Int) (f : Nat) (s : BackoffCounter) : Prop where
  maxTries : s.maxTries = M
  tries : s.tries = min M f
  /-- A live countdown never holds more than `2 ^ tries` values. -/
  countdown : ∀ n, s.counter = .reversedRange n → n ≤ 2 ^ s.tries.toNat

variable {M : Int} {f : Nat} {s : BackoffCounter}

theorem inv_init (hM : 0 ≤ M) : Inv M 0 (init M) :=
  ⟨rfl, by simp; omega, fun n h => by cases h⟩

theorem Inv.tries_nonneg (hM : 0 ≤ M) (h : Inv M f s) : 0 ≤ s.tries := by
  have := h.tries; omega

theorem Inv.tries_le (h : Inv M f s) : s.tries ≤ M := by
  have := h.tries; omega

/-- Every value a countdown yields is below `2 ^ M`. -/
theorem Inv.countdown_lt (h : Inv M f s) {n : Nat} (hc : s.counter = .reversedRange (n + 1)) :
    (n : Int) ≤ 2 ^ M.toNat - 1 := by
  have h1 := h.countdown _ hc
  have h2 : 2 ^ s.tries.toNat ≤ 2 ^ M.toNat :=
    Nat.pow_le_pow_right (by omega) (by have := h.tries_le; omega)
  have : ((n + 1 : Nat) : Int) ≤ ((2 ^ M.toNat : Nat) : Int) := by exact_mod_cast (by omega)
  push_cast at this; omega

theorem one_le_two_pow (k : Nat) : (1 : Int) ≤ 2 ^ k := by exact_mod_cast Nat.one_le_two_pow

/-- One call keeps the invariant, never raises, a `next()` returns at most `2 ^ M - 1`, and
    `failure()` leaves `current = 2 ^ tries`. -/
theorem Inv.step (hM : 0 ≤ M) (h : Inv M f s) (op : Op) :
    ∃ o s', s.step op = .ok (o, s') ∧ Inv M (countFailures f s op) s' ∧
      (∀ v, o = some v → v ≤ 2 ^ M.toNat - 1) ∧ (op = .failure → s'.current = 2 ^ s'.tries.toNat) := by
  have hpow := one_le_two_pow M.toNat
  cases op with
  | next =>
    refine ⟨some s.next.1, s.next.2, rfl, ?_, ?_, fun e => by cases e⟩ <;>
      rcases next_cases s with ⟨hc, hn⟩ | ⟨hc, hn⟩ | ⟨n, hc, hn⟩ <;> rw [hn]
    · exact ⟨h.maxTries, by simp [countFailures, hc, h.tries], fun n e => by simp [hc] at e⟩
    · exact ⟨by simp [h.maxTries], by simp [countFailures, hc]; omega, fun n e => by simp at e⟩
    · refine ⟨h.maxTries, by simp [countFailures, hc, h.tries], fun k e => ?_⟩
      cases e; have := h.countdown _ hc; simp only; omega
    · rintro v ⟨⟩; omega
    · rintro v ⟨⟩; omega
    · rintro v ⟨⟩; exact h.countdown_lt hc
  | failure =>
    have hn : 0 ≤ min s.maxTries (s.tries + 1) := by rw [h.maxTries]; have := h.tries; omega
    refine ⟨none, _, by simp only [BackoffCounter.step, failure_ok s hn]; rfl, ?_, by simp, fun _ => rfl⟩
    refine ⟨h.maxTries, ?_, fun n e => ?_⟩
    · simp only [countFailures, h.maxTries, h.tries]; omega
    · cases e; exact Nat.le_refl _
  | reset =>
    refine ⟨none, s.reset, rfl, ?_, by simp, by simp⟩
    exact ⟨by simp [h.maxTries], by simp [countFailures]; omega, fun n e => by simp at e⟩

/-- The run lemma: from a state with the invariant, every sequence of calls runs to the end,
    keeps the invariant with its count, and every `next()` value is below `2 ^ M`. -/
theorem Inv.run (hM : 0 ≤ M) (h : Inv M f s) (ops : List Op) :
    ∃ vs t, s.run ops = .ok (vs, t) ∧ Inv M (failuresSince s f ops) t ∧
      (ops.getLast? = some .failure → t.current = 2 ^ t.tries.toNat) ∧
      ∀ v ∈ vs, v ≤ 2 ^ M.toNat - 1 := by
  induction ops generalizing f s with
  | nil => exact ⟨[], s, rfl, h, by simp, by simp⟩
  | cons op ops ih =>
    obtain ⟨o, s', hs, hi, ho, hf⟩ := h.step hM op
    obtain ⟨vs, t, hr, hi', hl, hv⟩ := ih hi
    refine ⟨o.toList ++ vs, t, run_cons hs hr, by simpa [failuresSince, hs] using hi', fun hlast => ?_, ?_⟩
    · cases ops with
      | cons => exact hl (by simpa using hlast)
      | nil => cases hr; exact hf (by simpa using hlast)
    · intro v hv'
      rcases List.mem_append.mp hv' with hv' | hv'
      · exact ho v (Option.mem_toList.mp hv')
      · exact hv v hv'

theorem Reachable.inv (hM : 0 ≤ M) (hs : Reachable M s) : ∃ f, Inv M f s := by
  obtain ⟨ops, vs, hr⟩ := hs
  obtain ⟨vs', t, hr', hi, -⟩ := (inv_init hM).run hM ops
  rw [hr] at hr'; cases hr'
  exact ⟨_, hi⟩

/-! ## The invariant over every run -/

/-- Every finite sequence of calls on `BackoffCounter(M)`, `M ≥ 0`: no call raises; the try
    count is `min M f`, so it lies in `[0, M]` and `give_up` holds iff `f ≥ M`; a run ending
    in `failure()` leaves `current = 2 ^ tries`; no `next()` returns more than `2 ^ M - 1`. -/
theorem tries_eq_min_failures (M : Int) (hM : 0 ≤ M) (ops : List Op) :
    ∃ vs s, (init M).run ops = .ok (vs, s) ∧
      s.tries = min M (failuresSince (init M) 0 ops) ∧ 0 ≤ s.tries ∧ s.tries ≤ M ∧
      (s.giveUp = true ↔ M ≤ failuresSince (init M) 0 ops) ∧
      (ops.getLast? = some .failure → s.current = 2 ^ s.tries.toNat) ∧
      ∀ v ∈ vs, v ≤ 2 ^ M.toNat - 1 := by
  obtain ⟨vs, s, hr, hi, hl, hv⟩ := (inv_init hM).run hM ops
  refine ⟨vs, s, hr, hi.tries, hi.tries_nonneg hM, hi.tries_le, ?_, hl, hv⟩
  simp only [giveUp, decide_eq_true_eq, hi.maxTries, hi.tries]
  omega

/-- Three failures on a counter capped at two: it gives up. -/
theorem three_failures_give_up :
    ∃ vs s, (init 2).run [.failure, .failure, .failure] = .ok (vs, s) ∧ s.giveUp = true := by
  obtain ⟨vs, s, hr, -, -, -, hg, -⟩ := tries_eq_min_failures 2 (by decide) [.failure, .failure, .failure]
  exact ⟨vs, s, hr, hg.mpr (by decide)⟩

/-! ## The countdown after a failure -/

theorem run_nexts_init (M : Int) (j : Nat) :
    (init M).run (List.replicate j .next) = .ok (List.replicate j 0, init M) := by
  induction j with
  | zero => rfl
  | succ j ih => exact run_cons (o := some 0) rfl ih

/-- `j` consecutive `next()` calls on a countdown of `k` values: `k - 1, ..., 0`, then zeros,
    and from the `(k + 1)`-th call on the counter is fresh. -/
theorem run_nexts_countdown {k : Nat} (hc : s.counter = .reversedRange k) (hm : s.maxTries = M) (j : Nat) :
    ∃ vs t, s.run (List.replicate j .next) = .ok (vs, t) ∧
      vs = (List.range j).map (fun i => if i + 1 ≤ k then (k : Int) - (i + 1) else 0) ∧
      (k + 1 ≤ j → t = init M) := by
  induction j generalizing s k with
  | zero => exact ⟨[], s, rfl, rfl, by omega⟩
  | succ j ih =>
    cases k with
    | zero =>
      have hs : s.step .next = .ok (some 0, init M) := by
        simp [BackoffCounter.step, next_exhausted s hc, reset_eq_init, hm]
      refine ⟨0 :: List.replicate j 0, init M, run_cons hs (run_nexts_init M j), ?_, fun _ => rfl⟩
      simp [List.map_const', List.replicate_succ]
    | succ n =>
      have hs : s.step .next = .ok (some (n : Int), { s with counter := .reversedRange n, current := n }) := by
        simp [BackoffCounter.step, next_countdown s n hc]
      obtain ⟨vs, t, hr, hv, ht⟩ := ih (s := { s with counter := .reversedRange n, current := n }) rfl hm
      refine ⟨(n : Int) :: vs, t, run_cons hs hr, ?_, fun h => ht (by omega)⟩
      simp only [hv, List.range_succ_eq_map, List.map_cons, List.map_map]
      refine congrArg₂ _ (by simp) (List.map_congr_left fun i _ => ?_)
      simp only [Function.comp]
      split_ifs <;> omega

/-- From every reachable state of `BackoffCounter(M)`, `M ≥ 0`, with try count `t`, and
    `m = min M (t + 1)`: `failure()` sets `current = 2 ^ m`; of the `next()` calls after it,
    the `j`-th returns `2 ^ m - j` while `j ≤ 2 ^ m` and `0` after, and from the
    `(2 ^ m + 1)`-th on the counter is a fresh `BackoffCounter(M)`. -/
theorem failure_then_countdown (M : Int) (hM : 0 ≤ M) (s : BackoffCounter) (hs : Reachable M s) (j : Nat) :
    ∃ m : Nat, (m : Int) = min M (s.tries + 1) ∧ ∃ s' vs t, s.failure = .ok s' ∧ s'.current = 2 ^ m ∧
      s'.run (List.replicate j .next) = .ok (vs, t) ∧
      vs = (List.range j).map (fun i : Nat => if i + 1 ≤ 2 ^ m then (2 : Int) ^ m - (i + 1) else 0) ∧
      (2 ^ m + 1 ≤ j → t = init M) := by
  obtain ⟨f, hi⟩ := hs.inv hM
  have hn : 0 ≤ min s.maxTries (s.tries + 1) := by rw [hi.maxTries]; have := hi.tries_nonneg hM; omega
  have hm : ((min M (s.tries + 1)).toNat : Int) = min M (s.tries + 1) := by rw [← hi.maxTries]; omega
  refine ⟨_, hm, ?_⟩
  obtain ⟨vs, t, hr, hv, ht⟩ := run_nexts_countdown (s := ⟨.reversedRange (2 ^ (min s.maxTries (s.tries + 1)).toNat),
    min s.maxTries (s.tries + 1), s.maxTries, 2 ^ (min s.maxTries (s.tries + 1)).toNat⟩) rfl hi.maxTries j
  rw [hi.maxTries] at hr hv ht
  exact ⟨_, vs, t, by rw [failure_ok s hn, hi.maxTries], rfl, hr, by push_cast at hv; exact hv, ht⟩

/-- Two failures with a cap of one leave the tries at the cap, so a third `failure()` sets
    `current` to `2`; `next()` then yields `1`, `0`, `0`, and the counter is fresh again. -/
theorem capped_failure_counts_down :
    ∃ s s' t, (init 1).run [.failure, .failure] = .ok ([], s) ∧ s.failure = .ok s' ∧ s'.current = 2 ∧
      s'.run [.next, .next, .next] = .ok ([1, 0, 0], t) ∧ t = init 1 := by
  obtain ⟨m, hm, s', vs, t, hf, hc, hr, hv, ht⟩ :=
    failure_then_countdown 1 (by decide) ⟨.reversedRange 2, 1, 1, 2⟩ ⟨[.failure, .failure], [], rfl⟩ 3
  obtain rfl : m = 1 := by simp at hm; omega
  subst hv
  exact ⟨_, s', t, rfl, hf, hc, hr, ht (by decide)⟩

/-! ## A negative cap -/

theorem bind_pure_eq_error {α β : Type} (x : Except PyError α) (f : α → β) (e : PyError) :
    (x >>= fun a => pure (f a)) = .error e ↔ x = .error e := by
  cases x <;> simp [bind, Except.bind, pure, Except.pure]

/-- From a state whose cap is negative, calls raise exactly when one is a `failure()`. -/
theorem run_error_iff_of_maxTries_neg :
    ∀ {s : BackoffCounter} (ops : List Op), s.maxTries < 0 → (s.run ops = .error .valueError ↔ .failure ∈ ops)
  | _, [], _ => by simp [run]
  | s, .failure :: ops, hs => by
    simp [run, step, failure_error s (by omega : min s.maxTries (s.tries + 1) < 0)]
    rfl
  | s, .next :: ops, hs | s, .reset :: ops, hs => by
    simp only [run, step, bind, Except.bind, List.mem_cons, reduceCtorEq, false_or]
    exact (bind_pure_eq_error _ _ _).trans (run_error_iff_of_maxTries_neg ops (by simpa using hs))

/-- `BackoffCounter(M)` with `M < 0`: `give_up` holds from construction on, and a sequence
    of calls raises `ValueError` exactly when it calls `failure()`, whose shift count
    `min(M, tries + 1)` is negative. -/
theorem negative_cap_failure_raises {M : Int} (hM : M < 0) (ops : List Op) :
    (init M).giveUp = true ∧ (run (init M) ops = .error .valueError ↔ Op.failure ∈ ops) :=
  ⟨by simp [giveUp]; omega, run_error_iff_of_maxTries_neg ops hM⟩

/-- `BackoffCounter(-1)`: `next()` returns, the `failure()` after it raises. -/
theorem cap_minus_one_failure_raises : run (init (-1)) [.next, .failure] = .error .valueError :=
  (negative_cap_failure_raises (by decide) [.next, .failure]).2.2 (by decide)

end Slivka.Backoff.BackoffCounter
