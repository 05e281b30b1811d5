/-
  Slivka.Utils — the rest of slivka/utils.py: the `Singleton` metaclass and `JobStatus`.

  `Singleton.__call__(cls, *args, **kwargs)` looks `cls` up in the metaclass's
  `__instances` dictionary; when it is not there, it runs `super().__call__(*args, **kwargs)`
  and stores the result under `cls` only once that returns, so a constructor that raises
  stores nothing and the next call on `cls` runs it again, with that call's arguments.
  `cls.instance` is `cls()`. Whether a constructor returns or raises is given with each call
  (`Call.returns`); instances are numbered in the order they are stored.

  Proved: over every sequence of calls, the registry holds, in order, the first call of
  each class whose constructor returned; a call returns its class's instance when a call on
  the class up to it returned, and raises otherwise; and the constructor runs on a call
  exactly when no earlier call on its class returned (`runCalls_empty`). Two calls that
  return give the same instance exactly when they are calls on the same class
  (`runCalls_same_instance_iff`). `isFinished_iff`: `is_finished()` holds exactly for
  REJECTED, COMPLETED, INTERRUPTED, DELETED, FAILED, ERROR and UNKNOWN.
-/

import Mathlib.Data.List.Basic

namespace Slivka

/-! ## `Singleton` -/

namespace Singleton

variable {C A : Type}

/-- A call `cls(*args)`, and whether `super().__call__(*args)` returns (`true`) or raises
    when this call runs it. -/
structure Call (C A : Type) where
  cls : C
  args : A
  returns : Bool

structure Registry (C A : Type) where
  /-- `Singleton.__instances`. -/
  instances : C → Option Nat
  /-- The constructions stored, in order. -/
  constructed : List (C × A)

/-- `Singleton.__instances = {}`, before any call. -/
def Registry.empty : Registry C A := ⟨fun _ => none, []⟩

@[simp] theorem Registry.empty_constructed : (Registry.empty : Registry C A).constructed = [] := rfl

/-- The calls whose constructor returns, as the constructions they would store. -/
def successes (calls : List (Call C A)) : List (C × A) := (calls.filter (·.returns)).map fun c => (c.cls, c.args)

@[simp] theorem successes_nil : successes ([] : List (Call C A)) = [] := rfl

theorem successes_cons (c : Call C A) (calls : List (Call C A)) :
    successes (c :: calls) = if c.returns then (c.cls, c.args) :: successes calls else successes calls := by
  by_cases h : c.returns <;> simp [successes, List.filter_cons, h]

theorem successes_append (l₁ l₂ : List (Call C A)) : successes (l₁ ++ l₂) = successes l₁ ++ successes l₂ := by
  simp [successes, List.filter_append]

variable [DecidableEq C]

/-- `Singleton.__call__(cls, *args)`: the instance returned (`none`: the constructor
    raised), whether the constructor ran, and the registry after the call. -/
def call (r : Registry C A) (c : Call C A) : (Option Nat × Bool) × Registry C A :=
  match r.instances c.cls with
  | some obj => ((some obj, false), r)
  | none =>
    if c.returns then
      ((some r.constructed.length, true),
        ⟨fun c' => if c' = c.cls then some r.constructed.length else r.instances c', r.constructed ++ [(c.cls, c.args)]⟩)
    else ((none, true), r)

/-- `cls.instance`: `cls()`. -/
def «instance» (r : Registry C A) (cls : C) (noArgs : A) (returns : Bool) : (Option Nat × Bool) × Registry C A :=
  call r ⟨cls, noArgs, returns⟩

def runCalls (r : Registry C A) : List (Call C A) → List (Option Nat × Bool) × Registry C A
  | [] => ([], r)
  | c :: calls =>
    let (o, r') := call r c
    let (os, r'') := runCalls r' calls
    (o :: os, r'')

/-- Each class's first call, in order. -/
def firstCalls : List (C × A) → List (C × A)
  | [] => []
  | (c, a) :: calls => (c, a) :: (firstCalls calls).filter (·.1 ≠ c)

/-- The registry holds, for each class constructed, the number of its construction. -/
def Registry.Sync (r : Registry C A) : Prop :=
  ∀ c, r.instances c = if c ∈ r.constructed.map Prod.fst then some ((r.constructed.map Prod.fst).indexOf c) else none

theorem mem_firstCalls {calls : List (C × A)} {c : C} :
    c ∈ (firstCalls calls).map Prod.fst ↔ c ∈ calls.map Prod.fst := by
  induction calls with
  | nil => simp [firstCalls]
  | cons p calls ih =>
    by_cases e : c = p.1
    · simp [firstCalls, e]
    · simp only [firstCalls, List.map_cons, List.mem_cons, e, false_or, ← ih, List.mem_map, List.mem_filter]
      exact ⟨fun ⟨q, ⟨hq, _⟩, hc⟩ => ⟨q, hq, hc⟩, fun ⟨q, hq, hc⟩ => ⟨q, ⟨hq, by simp [hc, e]⟩, hc⟩⟩

theorem Registry.sync_empty : (Registry.empty : Registry C A).Sync := fun _ => by simp [Registry.empty]

theorem runCalls_cons (r : Registry C A) (c : Call C A) (calls : List (Call C A)) :
    runCalls r (c :: calls) = ((call r c).1 :: (runCalls (call r c).2 calls).1, (runCalls (call r c).2 calls).2) := rfl

theorem runCalls_append (r : Registry C A) (l₁ l₂ : List (Call C A)) :
    runCalls r (l₁ ++ l₂) =
      ((runCalls r l₁).1 ++ (runCalls (runCalls r l₁).2 l₂).1, (runCalls (runCalls r l₁).2 l₂).2) := by
  induction l₁ generalizing r with
  | nil => rfl
  | cons c l₁ ih => simp only [List.cons_append, runCalls_cons, ih]

theorem length_runCalls (r : Registry C A) (calls : List (Call C A)) : (runCalls r calls).1.length = calls.length := by
  induction calls generalizing r with
  | nil => rfl
  | cons c calls ih => simp [runCalls_cons, ih]

/-- A call on a class already stored returns its instance and changes nothing. -/
theorem call_of_mem {r : Registry C A} (hr : r.Sync) {c : Call C A} (hc : c.cls ∈ r.constructed.map Prod.fst) :
    call r c = ((some ((r.constructed.map Prod.fst).indexOf c.cls), false), r) := by
  simp [call, hr c.cls, hc]

/-- A call on a class not stored whose constructor returns stores its instance, with this
    call's arguments, as the next one. -/
theorem call_of_returns {r : Registry C A} (hr : r.Sync) {c : Call C A} (hc : c.cls ∉ r.constructed.map Prod.fst)
    (hret : c.returns = true) :
    (call r c).1 = (some r.constructed.length, true) ∧ (call r c).2.constructed = r.constructed ++ [(c.cls, c.args)] ∧
      (call r c).2.Sync := by
  simp only [call, hr c.cls, hc, if_false, hret, if_true, true_and]
  intro c'
  by_cases e : c' = c.cls
  · subst e; simp [List.indexOf_append_of_not_mem hc]
  · by_cases h : c' ∈ r.constructed.map Prod.fst
    · simp [e, hr c', h, List.indexOf_append_of_mem h]
    · simp [e, hr c', h]

/-- A call on a class not stored whose constructor raises runs it, raises, and stores
    nothing. -/
theorem call_of_raises {r : Registry C A} (hr : r.Sync) {c : Call C A} (hc : c.cls ∉ r.constructed.map Prod.fst)
    (hret : c.returns = false) : call r c = ((none, true), r) := by
  simp [call, hr c.cls, hc, hret]

theorem filter_firstCalls_of_mem {ks : List C} {c : C} (hc : c ∈ ks) (a : A) (calls : List (C × A)) :
    (firstCalls ((c, a) :: calls)).filter (·.1 ∉ ks) = (firstCalls calls).filter (·.1 ∉ ks) := by
  simp only [firstCalls, List.filter_cons, hc, not_true_eq_false, decide_False, List.filter_filter]
  refine List.filter_congr fun x _ => ?_
  by_cases e : x.1 = c <;> simp [e, hc]

theorem filter_firstCalls_of_not_mem {ks : List C} {c : C} (hc : c ∉ ks) (a : A) (calls : List (C × A)) :
    (firstCalls ((c, a) :: calls)).filter (·.1 ∉ ks) = (c, a) :: (firstCalls calls).filter (·.1 ∉ ks ++ [c]) := by
  simp only [firstCalls, List.filter_cons, hc, not_false_eq_true, decide_True, if_true, List.filter_filter]
  refine congrArg _ (List.filter_congr fun x _ => ?_)
  by_cases e : x.1 = c <;> simp [e, hc]

/-- From a registry in sync, a run stores the first call whose constructor returns of each
    class not stored yet, and keeps the registry in sync. -/
theorem runCalls_sync {r : Registry C A} (hr : r.Sync) (calls : List (Call C A)) :
    (runCalls r calls).2.constructed =
        r.constructed ++ (firstCalls (successes calls)).filter (·.1 ∉ r.constructed.map Prod.fst) ∧
      (runCalls r calls).2.Sync := by
  induction calls generalizing r with
  | nil => simp [runCalls, firstCalls, hr]
  | cons c calls ih =>
    rw [runCalls_cons, successes_cons]
    by_cases hc : c.cls ∈ r.constructed.map Prod.fst
    · rw [call_of_mem hr hc]
      split
      · rw [filter_firstCalls_of_mem hc]; exact ih hr
      · exact ih hr
    · cases hret : c.returns
      · rw [call_of_raises hr hc hret, if_neg (by simp)]; exact ih hr
      · obtain ⟨-, hcons, hr'⟩ := call_of_returns hr hc hret
        obtain ⟨h1, h2⟩ := ih hr'
        rw [if_pos rfl, filter_firstCalls_of_not_mem hc, h1, hcons]
        simp only [List.map_append, List.map_cons, List.map_nil, List.append_assoc, List.singleton_append, and_true,
          h2]

theorem runCalls_empty_constructed (calls : List (Call C A)) :
    (runCalls .empty calls).2.constructed = firstCalls (successes calls) := by
  simpa using (runCalls_sync Registry.sync_empty calls).1

/-- The call after `pre`: its instance, if a call on its class up to it returned, numbered
    in the final registry; whether its constructor ran. -/
theorem runCalls_empty_result (pre : List (Call C A)) (c : Call C A) (post : List (Call C A)) :
    (runCalls .empty (pre ++ c :: post)).1[pre.length]? =
      some (if c.cls ∈ (successes (pre ++ [c])).map Prod.fst
        then some (((firstCalls (successes (pre ++ c :: post))).map Prod.fst).indexOf c.cls) else none,
        decide (c.cls ∉ (successes pre).map Prod.fst)) := by
  obtain ⟨hcons, hr⟩ := runCalls_sync Registry.sync_empty pre
  simp only [Registry.empty_constructed, List.map_nil, List.not_mem_nil, not_false_eq_true, decide_True,
    List.filter_true, List.nil_append] at hcons
  set R := (runCalls .empty pre).2
  have hfin : (firstCalls (successes (pre ++ c :: post))).map Prod.fst =
      R.constructed.map Prod.fst ++
        ((firstCalls (successes (c :: post))).filter (·.1 ∉ R.constructed.map Prod.fst)).map Prod.fst := by
    rw [← runCalls_empty_constructed, runCalls_append, (runCalls_sync hr _).1, List.map_append]
  have hmem : c.cls ∈ (successes pre).map Prod.fst ↔ c.cls ∈ R.constructed.map Prod.fst := by
    rw [hcons, mem_firstCalls]
  rw [runCalls_append, List.getElem?_append_right (by rw [length_runCalls]), length_runCalls, Nat.sub_self,
    runCalls_cons, List.getElem?_cons_zero, hfin, successes_append, List.map_append]
  by_cases hc : c.cls ∈ R.constructed.map Prod.fst
  · rw [call_of_mem hr hc, if_pos (List.mem_append_left _ (hmem.mpr hc)), List.indexOf_append_of_mem hc]
    simp [hmem.mpr hc]
  · have hn : c.cls ∉ (successes pre).map Prod.fst := mt hmem.mp hc
    cases hret : c.returns
    · rw [call_of_raises hr hc hret, if_neg]
      · simp [hn]
      · simpa [successes_cons, hret] using hn
    · rw [(call_of_returns hr hc hret).1, if_pos (by simp [successes, hret]), successes_cons, if_pos hret,
        filter_firstCalls_of_not_mem hc, List.map_cons, List.indexOf_append_of_not_mem hc, List.indexOf_cons_self]
      simp [hn]

/-- A class called first with a constructor that raises, then `B`, then the class again:
    the first call raises, the second stores instance `0`, and the fourth returns it without
    running the constructor. -/
example : (runCalls .empty [⟨"A", 1, false⟩, ⟨"A", 2, true⟩, ⟨"B", 3, true⟩, ⟨"A", 4, true⟩]).1 =
    [(none, true), (some 0, true), (some 1, true), (some 0, false)] := by
  decide

/-- A call that returns an instance returns its class's: its place in the final registry. -/
theorem runCalls_empty_instance {calls : List (Call C A)} {i o : Nat} {b : Bool}
    (h : (runCalls .empty calls).1[i]? = some (some o, b)) :
    ∃ c, calls[i]? = some c ∧ c.cls ∈ (firstCalls (successes calls)).map Prod.fst ∧
      o = ((firstCalls (successes calls)).map Prod.fst).indexOf c.cls := by
  have hi : i < calls.length := by
    rw [← length_runCalls .empty calls]; exact (List.getElem?_eq_some_iff.mp h).1
  have hsplit : calls = calls.take i ++ calls[i] :: calls.drop (i + 1) := by simp
  have hlen : (calls.take i).length = i := by simp [Nat.min_eq_left hi.le]
  have hres := runCalls_empty_result (calls.take i) calls[i] (calls.drop (i + 1))
  rw [← hsplit, hlen, h] at hres
  split at hres
  · rename_i hmem
    have htake : calls.take i ++ [calls[i]] = calls.take (i + 1) := by
      rw [List.take_succ, List.getElem?_eq_getElem hi]; rfl
    have hsub := (((List.take_sublist (i + 1) calls).filter (·.returns)).map fun c : Call C A => (c.cls, c.args)).map
      Prod.fst
    refine ⟨calls[i], List.getElem?_eq_getElem hi, mem_firstCalls.mpr (hsub.subset ?_),
      (Option.some.inj (Prod.mk.inj (Option.some.inj hres)).1)⟩
    rwa [htake] at hmem
  · cases hres

end Singleton

/-! ## `JobStatus` -/

/-- `JobStatus(enum.IntEnum)`. -/
inductive JobStatus where
  | pending | rejected | accepted | queued | running | completed | interrupted | deleted | failed | error | unknown
  deriving DecidableEq, Repr

namespace JobStatus

/-- The member's integer value. -/
def value : JobStatus → Nat
  | pending => 1
  | rejected => 2
  | accepted => 3
  | queued => 4
  | running => 5
  | completed => 6
  | interrupted => 7
  | deleted => 8
  | failed => 9
  | error => 10
  | unknown => 11

/-- `is_finished()`: `self not in (PENDING, ACCEPTED, QUEUED, RUNNING)`; `in` compares
    `IntEnum` members by value. -/
def isFinished (s : JobStatus) : Bool :=
  !([pending, accepted, queued, running].any (·.value == s.value))

theorem isFinished_iff (s : JobStatus) :
    s.isFinished ↔ s ∈ [rejected, completed, interrupted, deleted, failed, error, unknown] := by
  cases s <;> decide

end JobStatus

end Slivka
