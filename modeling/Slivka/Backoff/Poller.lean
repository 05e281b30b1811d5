/-
  Slivka.Backoff.Poller — the poller that owns a `BackoffCounter` and paces its attempts
  with it (the persistence layer that drives job polling: `failure()` on a failed attempt,
  `reset()` or nothing on a success).

  Each tick the poller calls `next()`; when it returns `0` it makes the next attempt. After
  a failed attempt it calls `failure()` before the next tick. It stops at the attempt for
  which it has no outcome left. The trace records every tick (`wait`, or `attempt` when
  `next()` returned `0`) and every `failure()` call, each with `give_up` read right after.

  Proved (`poll_follows_schedule`): for every cap `M ≥ 0` and every finite outcome
  sequence, the trace is `schedule`: attempt 1 on tick 1; attempt `i + 1` exactly
  `2 ^ min M c_i` ticks after attempt `i`, where `c_i` is the number of consecutive
  failures ending at outcome `i`; and `give_up` reads `c_i ≥ M` from the `failure()` call
  after attempt `i` through the tick of attempt `i + 1`.
-/

import Slivka.Backoff.Counter

namespace Slivka.Backoff

/-- An attempt's outcome; after a success the poller calls `reset()` or not. -/
inductive Outcome where
  | failed
  | succeeded (callsReset : Bool)
  deriving DecidableEq, Repr

/-- What the poller records, each with `give_up` read right after the call. -/
inductive Event where
  /-- A tick whose `next()` returned a positive delay. -/
  | wait (giveUp : Bool)
  /-- A tick whose `next()` returned `0`: an attempt is made. -/
  | attempt (giveUp : Bool)
  /-- The `failure()` call after a failed attempt. -/
  | failed (giveUp : Bool)
  deriving DecidableEq, Repr

def Event.isTick : Event → Bool
  | .failed _ => false
  | _ => true

/-- The ticks a trace spans. -/
def ticks (es : List Event) : Nat := es.countP Event.isTick

open BackoffCounter

/-- The attempt made in state `s` (where `next()` returned `0`) and the reaction to its
    outcome; `k` polls on. -/
def attempt (k : BackoffCounter → List Outcome → Except PyError (List Event)) (s : BackoffCounter) :
    List Outcome → Except PyError (List Event)
  | [] => .ok [.attempt s.giveUp]
  | .failed :: os => do
    let s' ← s.failure
    (fun es => .attempt s.giveUp :: .failed s'.giveUp :: es) <$> k s' os
  | .succeeded r :: os => (.attempt s.giveUp :: ·) <$> k (if r then s.reset else s) os

/-- The poller for `T` ticks from counter `s`, with the outcomes still to come. -/
def poll : Nat → BackoffCounter → List Outcome → Except PyError (List Event)
  | 0, _, _ => .ok []
  | T + 1, s, os =>
    if s.next.1 = 0 then attempt (poll T) s.next.2 os
    else (.wait s.next.2.giveUp :: ·) <$> poll T s.next.2 os

/-- The intended schedule from the attempt that ends `c` consecutive failures: that attempt,
    then for each outcome the `failure()` call when it failed, and the ticks up to and
    including the next attempt, `2 ^ min M c'` of them, where `c'` counts the failures
    ending at the outcome; `give_up` reads `c' ≥ M` throughout. -/
def schedule (M : Int) (c : Nat) : List Outcome → List Event
  | [] => [.attempt (decide (M ≤ c))]
  | o :: os =>
    let c' : Nat := match o with
      | .failed => c + 1
      | .succeeded _ => 0
    let g := decide (M ≤ c')
    .attempt (decide (M ≤ c)) :: ((match o with
      | .failed => [Event.failed g]
      | .succeeded _ => []) ++ List.replicate (2 ^ (min M c').toNat - 1) (.wait g) ++ schedule M c' os)

/-! ## Basics -/

@[simp] theorem ticks_nil : ticks [] = 0 := rfl
@[simp] theorem ticks_wait (g : Bool) (es : List Event) : ticks (.wait g :: es) = ticks es + 1 := by
  simp [ticks, Event.isTick]
@[simp] theorem ticks_attempt (g : Bool) (es : List Event) : ticks (.attempt g :: es) = ticks es + 1 := by
  simp [ticks, Event.isTick]
@[simp] theorem ticks_failed (g : Bool) (es : List Event) : ticks (.failed g :: es) = ticks es := by
  simp [ticks, Event.isTick]
@[simp] theorem ticks_append (es es' : List Event) : ticks (es ++ es') = ticks es + ticks es' := by
  simp [ticks]
@[simp] theorem ticks_replicate_wait (n : Nat) (g : Bool) : ticks (List.replicate n (.wait g)) = n := by
  induction n <;> simp [List.replicate_succ, *]

theorem ticks_schedule_pos (M : Int) (c : Nat) (os : List Outcome) : 1 ≤ ticks (schedule M c os) := by
  cases os <;> simp [schedule]

/-- The state of an attempt that ends `c` consecutive failures: the hidden reset of
    `__next__` has happened, or the countdown of the last `failure()` is spent. -/
structure AtAttempt (M : Int) (c : Nat) (s : BackoffCounter) : Prop where
  maxTries : s.maxTries = M
  tries : s.tries = min M c
  counter : (s.counter = .repeatZero ∧ c = 0) ∨ s.counter = .reversedRange 0

theorem AtAttempt.giveUp {M : Int} {c : Nat} {s : BackoffCounter} (h : AtAttempt M c s) :
    s.giveUp = decide (M ≤ c) := by
  simp only [BackoffCounter.giveUp, h.maxTries, h.tries, decide_eq_decide]
  omega

theorem poll_succ_of_zero {u s : BackoffCounter} (h : u.next = (0, s)) (T : Nat) (os : List Outcome) :
    poll (T + 1) u os = attempt (poll T) s os := by
  simp [poll, h]

/-- The countdown of a `failure()`: `k` ticks of waiting, then a state whose next tick
    draws the countdown's last `0`. -/
theorem poll_countdown {u : BackoffCounter} {k : Nat} (hc : u.counter = .reversedRange (k + 1)) :
    ∃ u', u'.counter = .reversedRange 1 ∧ u'.tries = u.tries ∧ u'.maxTries = u.maxTries ∧
      ∀ T os es, poll T u' os = .ok es → poll (T + k) u os = .ok (List.replicate k (.wait u.giveUp) ++ es) := by
  induction k generalizing u with
  | zero => exact ⟨u, hc, rfl, rfl, fun T os es h => h⟩
  | succ k ih =>
    obtain ⟨u', hc', ht, hm, hp⟩ := ih (u := { u with counter := .reversedRange (k + 1), current := (k + 1 : Nat) }) rfl
    refine ⟨u', hc', ht, hm, fun T os es h => ?_⟩
    have hv : ((k + 1 : Nat) : Int) ≠ 0 := by omega
    show poll (T + k + 1) u os = _
    rw [poll, next_countdown u (k + 1) hc, if_neg hv, hp T os es h]
    rfl

/-- The reaction to a failed attempt: `failure()`, `2 ^ m - 1` ticks of waiting with
    `m = min M (c + 1)`, and the tick of the next attempt, which ends `c + 1` failures. -/
theorem failed_then_attempt {M : Int} (hM : 0 ≤ M) {c : Nat} {s : BackoffCounter} (h : AtAttempt M c s) :
    ∃ s1 s2, s.failure = .ok s1 ∧ s1.giveUp = decide (M ≤ ((c + 1 : Nat) : Int)) ∧ AtAttempt M (c + 1) s2 ∧
      ∀ T os es, attempt (poll T) s2 os = .ok es →
        poll (T + 1 + (2 ^ (min M ((c + 1 : Nat) : Int)).toNat - 1)) s1 os =
          .ok (List.replicate (2 ^ (min M ((c + 1 : Nat) : Int)).toNat - 1) (.wait s1.giveUp) ++ es) := by
  have ht : min s.maxTries (s.tries + 1) = min M ((c + 1 : Nat) : Int) := by
    rw [h.maxTries, h.tries]; push_cast; omega
  have hf := failure_ok s (by rw [ht]; omega)
  rw [ht, h.maxTries] at hf
  generalize hm : (min M ((c + 1 : Nat) : Int)).toNat = m at hf ⊢
  have hk : 2 ^ m - 1 + 1 = 2 ^ m := Nat.sub_add_cancel Nat.one_le_two_pow
  obtain ⟨u, hc, htu, hmu, hp⟩ := poll_countdown (u := ⟨.reversedRange (2 ^ m), min M ((c + 1 : Nat) : Int), M, 2 ^ m⟩)
    (k := 2 ^ m - 1) (by rw [hk])
  have hat : AtAttempt M (c + 1) { u with counter := .reversedRange 0, current := 0 } := ⟨hmu, htu, .inr rfl⟩
  refine ⟨_, _, hf, ?_, hat, fun T os es he => hp (T + 1) os es ?_⟩
  · simp only [BackoffCounter.giveUp, decide_eq_decide]; omega
  · rw [poll_succ_of_zero (by simpa using next_countdown u 0 hc)]; exact he

/-- The reaction to a success, with or without `reset()`: the next tick draws `0`, and its
    attempt ends no failures. -/
theorem succeeded_then_attempt {M : Int} (hM : 0 ≤ M) {c : Nat} {s : BackoffCounter} (h : AtAttempt M c s)
    (r : Bool) : ∃ s2, (if r then s.reset else s).next = (0, s2) ∧ AtAttempt M 0 s2 := by
  cases r with
  | true => exact ⟨_, next_repeatZero _ rfl, ⟨by simp [h.maxTries], by simp; omega, .inl ⟨rfl, rfl⟩⟩⟩
  | false =>
    rcases h.counter with ⟨hc, rfl⟩ | hc
    · exact ⟨_, next_repeatZero s hc, ⟨h.maxTries, h.tries, .inl ⟨hc, rfl⟩⟩⟩
    · exact ⟨_, next_exhausted s hc, ⟨by simp [h.maxTries], by simp; omega, .inl ⟨rfl, rfl⟩⟩⟩

/-- From an attempt that ends `c` consecutive failures, with ticks enough for the rest of
    the schedule, the poller follows the schedule. -/
theorem attempt_follows_schedule {M : Int} (hM : 0 ≤ M) (os : List Outcome) :
    ∀ {c : Nat} {s : BackoffCounter} {T : Nat}, AtAttempt M c s → ticks (schedule M c os) ≤ T + 1 →
      attempt (poll T) s os = .ok (schedule M c os) := by
  induction os with
  | nil => intro c s T h _; simp [attempt, schedule, h.giveUp]
  | cons o os ih =>
    intro c s T h hT
    cases o with
    | failed =>
      obtain ⟨s1, s2, hf, hg, hat, hp⟩ := failed_then_attempt hM h
      have hpos := ticks_schedule_pos M (c + 1) os
      simp only [schedule, ticks_attempt, ticks_append, ticks_replicate_wait, List.singleton_append,
        ticks_failed] at hT ⊢
      obtain ⟨T', rfl⟩ : ∃ T', T = T' + 1 + (2 ^ (min M ((c + 1 : Nat) : Int)).toNat - 1) :=
        ⟨T - (2 ^ (min M ((c + 1 : Nat) : Int)).toNat - 1) - 1, by omega⟩
      simp only [attempt, hf, bind, Except.bind]
      rw [hp T' os _ (ih (T := T') hat (by omega)), ← hg, h.giveUp]
      rfl
    | succeeded r =>
      obtain ⟨s2, hn, hat⟩ := succeeded_then_attempt hM h r
      have hpos := ticks_schedule_pos M 0 os
      have h0 : (min M ((0 : Nat) : Int)).toNat = 0 := by omega
      simp only [schedule, h0, pow_zero, Nat.sub_self, List.replicate_zero, List.nil_append,
        ticks_attempt] at hT ⊢
      obtain ⟨T', rfl⟩ : ∃ T', T = T' + 1 := ⟨T - 1, by omega⟩
      show (Event.attempt s.giveUp :: ·) <$> poll (T' + 1) (if r then s.reset else s) os = _
      rw [poll_succ_of_zero hn, ih (T := T') hat (by omega), h.giveUp]
      rfl

/-! ## The poller follows the schedule -/

/-- Every finite outcome sequence, cap `M ≥ 0`, and ticks enough for the schedule: the
    poller's trace is the schedule. Attempt 1 is on tick 1; attempt `i + 1` comes exactly
    `2 ^ min M c_i` ticks after attempt `i`; `give_up` reads `c_i ≥ M` right after the
    `failure()` call of a failed attempt `i` and on every tick up to attempt `i + 1`. -/
theorem poll_follows_schedule (M : Int) (hM : 0 ≤ M) (os : List Outcome) (T : Nat)
    (hT : ticks (schedule M 0 os) ≤ T) : poll T (init M) os = .ok (schedule M 0 os) := by
  obtain ⟨T', rfl⟩ : ∃ T', T = T' + 1 := ⟨T - 1, by have := ticks_schedule_pos M 0 os; omega⟩
  rw [poll_succ_of_zero (u := init M) (s := init M) rfl]
  exact attempt_follows_schedule hM os ⟨rfl, by simp; omega, .inl ⟨rfl, rfl⟩⟩ hT

/-- Cap `1`, two failures and a success: attempts on ticks 1, 3, 5 and 6, and `give_up`
    from the first `failure()` until the success. -/
theorem poll_two_failures_then_success :
    poll 6 (init 1) [.failed, .failed, .succeeded false] =
      .ok [.attempt false, .failed true, .wait true, .attempt true, .failed true, .wait true,
        .attempt true, .attempt false] :=
  (poll_follows_schedule 1 (by decide) _ 6 (by decide)).trans rfl

end Slivka.Backoff
