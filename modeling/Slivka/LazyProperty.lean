/-
  Slivka.LazyProperty — `lazy_property` (slivka/utils.py): a non-data descriptor whose
  `__get__` runs the initializer on the instance, stores the value in the instance's
  `__dict__` and returns it, so that later reads find the value there and skip the
  descriptor.

  Python reads an attribute written `n` in the body of class `C` under its lookup name:
  `n` itself, or, when `n` is private (two leading underscores, not two trailing), the
  mangled `'_' + C.__name__.lstrip('_') + n`, left as `n` when `C`'s name is all
  underscores. `__get__` builds its key from `owner.__name__`, the class of the instance
  read, and does not strip underscores.

  `__get__` runs the initializer before it stores anything, so a read whose initializer
  raises stores nothing and the next read runs it again. `getAttr` is a read whose
  initializer returns; `getAttrRaising` one whose initializer may raise, as it behaves at
  that read (`readsRaising_replicate`: the first is the second with an initializer that
  always returns).

  Proved:
  - `reads_run_initializer_once`: when the key is the lookup name, any number of reads runs
    the initializer once and every read returns its value;
    `reads_run_initializer_every_time`: when it is not, every read runs it.
  - `lazyKey_eq_lookupName_iff`: the key is the lookup name exactly when `n` is not
    private, or the instance's class is named as `C` without its leading underscores.
  - `lazy_property_runs`: over reads whose initializer raises on the first few and returns
    on the next, the initializer runs on each of those reads and never again exactly under
    that condition on the names, and on every read otherwise.
  - `lazy_key_misses_underscored_class`: for a class `_Job` the two differ, and two reads
    run the initializer twice.
-/

import Slivka.Python

namespace Slivka.LazyProperty

open Slivka.Python

/-- A private name: `name.startswith('__') and not name.endswith('__')`, the test of
    `__get__`, which is also the language's. -/
def isPrivate (n : String) : Bool := startswith n "__" && !endswith n "__"

/-- The name Python looks `n` up under when `n` is written in the body of class `cls`. -/
def lookupName (cls n : String) : String :=
  if isPrivate n then
    match cls.toList.dropWhile (· = '_') with
    | [] => n
    | stripped => "_" ++ String.mk stripped ++ n
  else n

/-- The key `lazy_property.__get__(instance, owner)` stores the value under: the
    initializer's `__name__`, prefixed with `'_' + owner.__name__` when private. -/
def lazyKey (owner n : String) : String :=
  if isPrivate n then "_" ++ owner ++ n else n

/-- An instance's `__dict__`. -/
def Dict (V : Type) := String → Option V

def Dict.set {V : Type} (d : Dict V) (k : String) (v : V) : Dict V := fun k' => if k' = k then some v else d k'

variable {V : Type} (init : Dict V → V) (n lookup owner : String)

/-- `x.<lookup>` where the class dictionary holds, under `lookup`, the `lazy_property` of
    the initializer named `n`, and `owner` is `type(x)`: the instance dictionary first (the
    descriptor is non-data), else `__get__`. The value read, the new dictionary, and whether
    the initializer ran. -/
def getAttr (d : Dict V) : V × Dict V × Bool :=
  match d lookup with
  | some v => (v, d, false)
  | none => (init d, d.set (lazyKey owner n) (init d), true)

/-- `k` reads of the attribute: the values read, the last dictionary, and how many times
    the initializer ran. -/
def reads : Nat → Dict V → List V × Dict V × Nat
  | 0, d => ([], d, 0)
  | k + 1, d =>
    let (v, d', ran) := getAttr init n lookup owner d
    let (vs, d'', runs) := reads k d'
    (v :: vs, d'', runs + if ran then 1 else 0)

@[simp] theorem Dict.set_same (d : Dict V) (k : String) (v : V) : d.set k v k = some v := by
  simp [Dict.set]

theorem Dict.set_ne (d : Dict V) {k k' : String} (v : V) (h : k' ≠ k) : d.set k v k' = d k' := by
  simp [Dict.set, h]

theorem reads_cached {d : Dict V} {v : V} (h : d lookup = some v) (k : Nat) :
    reads init n lookup owner k d = (List.replicate k v, d, 0) := by
  induction k with
  | zero => rfl
  | succ k ih => simp [reads, getAttr, h, ih, List.replicate_succ]

/-- When `__get__` stores under the lookup name, the first read runs the initializer and
    every read after it finds the stored value. -/
theorem reads_run_initializer_once (hk : lazyKey owner n = lookup) {d : Dict V} (hd : d lookup = none)
    (k : Nat) : (reads init n lookup owner (k + 1) d).1 = List.replicate (k + 1) (init d) ∧
      (reads init n lookup owner (k + 1) d).2.2 = 1 := by
  simp [reads, getAttr, hd, hk, reads_cached init n lookup owner (Dict.set_same d lookup (init d)) k,
    List.replicate_succ]

/-- When it stores elsewhere, no read finds the value: the initializer runs on every read. -/
theorem reads_run_initializer_every_time (hk : lazyKey owner n ≠ lookup) {d : Dict V}
    (hd : d lookup = none) (k : Nat) : (reads init n lookup owner k d).2.2 = k := by
  induction k generalizing d with
  | zero => rfl
  | succ k ih =>
    have : (d.set (lazyKey owner n) (init d)) lookup = none := by rw [Dict.set_ne _ _ (Ne.symm hk), hd]
    simp [reads, getAttr, hd, ih this]

/-! ## An initializer that raises -/

section Raising

variable {V : Type} (n lookup owner : String)

/-- `x.<lookup>` with an initializer that may raise: `tryInit d` is `none` when it raises.
    `__get__` calls it before it stores anything, so a read that raises leaves the
    dictionary as it was. The value read (`none`: the read raised), the new dictionary, and
    whether the initializer ran. -/
def getAttrRaising (tryInit : Dict V → Option V) (d : Dict V) : Option V × Dict V × Bool :=
  match d lookup with
  | some v => (some v, d, false)
  | none =>
    match tryInit d with
    | some v => (some v, d.set (lazyKey owner n) v, true)
    | none => (none, d, true)

/-- Reads of the attribute, each with the initializer as it behaves at that read: the
    values read, the last dictionary, and how many times the initializer ran. -/
def readsRaising : List (Dict V → Option V) → Dict V → List (Option V) × Dict V × Nat
  | [], d => ([], d, 0)
  | tryInit :: inits, d =>
    let (v, d', ran) := getAttrRaising n lookup owner tryInit d
    let (vs, d'', runs) := readsRaising inits d'
    (v :: vs, d'', runs + if ran then 1 else 0)

/-- `getAttr` is `getAttrRaising` with an initializer that returns. -/
theorem getAttrRaising_some (init : Dict V → V) (d : Dict V) :
    getAttrRaising n lookup owner (fun d => some (init d)) d =
      (some (getAttr init n lookup owner d).1, (getAttr init n lookup owner d).2.1, (getAttr init n lookup owner d).2.2) := by
  unfold getAttrRaising getAttr
  split <;> rfl

/-- `reads` is `readsRaising` with an initializer that returns on every read. -/
theorem readsRaising_replicate (init : Dict V → V) (k : Nat) (d : Dict V) :
    readsRaising n lookup owner (List.replicate k fun d => some (init d)) d =
      ((reads init n lookup owner k d).1.map some, (reads init n lookup owner k d).2.1,
        (reads init n lookup owner k d).2.2) := by
  induction k generalizing d with
  | zero => rfl
  | succ k ih =>
    simp only [List.replicate_succ, readsRaising, reads, getAttrRaising_some, ih, List.map_cons]

theorem readsRaising_cached {d : Dict V} {v : V} (h : d lookup = some v) (inits : List (Dict V → Option V)) :
    readsRaising n lookup owner inits d = (List.replicate inits.length (some v), d, 0) := by
  induction inits with
  | nil => rfl
  | cons f inits ih => simp [readsRaising, getAttrRaising, h, ih, List.replicate_succ]

/-- Reads whose initializer raises each run it, and store nothing. -/
theorem readsRaising_append_raising {d : Dict V} (hd : d lookup = none) (pre : List (Dict V → Option V))
    (hpre : ∀ f ∈ pre, f d = none) (rest : List (Dict V → Option V)) :
    readsRaising n lookup owner (pre ++ rest) d =
      (List.replicate pre.length none ++ (readsRaising n lookup owner rest d).1,
        (readsRaising n lookup owner rest d).2.1, (readsRaising n lookup owner rest d).2.2 + pre.length) := by
  induction pre with
  | nil => rfl
  | cons f pre ih =>
    have hf := hpre f (List.mem_cons_self _ _)
    rw [List.cons_append]
    simp only [readsRaising, getAttrRaising, hd, hf, if_true]
    rw [ih fun g hg => hpre g (List.mem_cons_of_mem _ hg)]
    simp only [List.length_cons, List.replicate_succ, List.cons_append, Nat.add_assoc]

/-- When `__get__` stores under the lookup name, the first read whose initializer returns
    is the last to run it. -/
theorem readsRaising_once (hk : lazyKey owner n = lookup) {d : Dict V} (hd : d lookup = none)
    {f : Dict V → Option V} {v : V} (hf : f d = some v) (post : List (Dict V → Option V)) :
    readsRaising n lookup owner (f :: post) d = (List.replicate (post.length + 1) (some v), d.set lookup v, 1) := by
  simp [readsRaising, getAttrRaising, hd, hf, hk, readsRaising_cached n lookup owner (Dict.set_same d lookup v) post,
    List.replicate_succ]

/-- When it stores elsewhere, every read runs the initializer, whether it raises or not. -/
theorem readsRaising_every_time (hk : lazyKey owner n ≠ lookup) :
    ∀ (inits : List (Dict V → Option V)) {d : Dict V}, d lookup = none →
      (readsRaising n lookup owner inits d).2.2 = inits.length
  | [], _, _ => rfl
  | f :: inits, d, hd => by
    simp only [readsRaising, getAttrRaising, hd]
    cases f d with
    | none => simp [readsRaising_every_time hk inits hd]
    | some v =>
      have : (d.set (lazyKey owner n) v) lookup = none := by rw [Dict.set_ne _ _ (Ne.symm hk), hd]
      simp [readsRaising_every_time hk inits this]

end Raising

/-! ## When the key is the lookup name -/

/-- `__get__`'s key, computed from the instance's class `owner`, is the name Python reads
    for `n` written in class `cls` exactly when `n` is not private, or `owner`'s name is
    `cls`'s without its leading underscores and not empty. -/
theorem lazyKey_eq_lookupName_iff (cls owner n : String) :
    lazyKey owner n = lookupName cls n ↔
      isPrivate n = false ∨ (owner.toList = cls.toList.dropWhile (· = '_') ∧ owner ≠ "") := by
  unfold lazyKey lookupName
  cases isPrivate n with
  | false => simp
  | true =>
    simp only [if_true, Bool.true_eq_false, false_or]
    split
    · rename_i h
      refine ⟨fun e => ?_, fun ⟨h1, h2⟩ => absurd (String.ext (h1.trans h)) h2⟩
      have := congrArg (fun s => s.data.length) e
      simp at this; omega
    · rename_i hne
      rw [String.ext_iff]
      simp only [String.data_append, List.append_cancel_right_eq, List.append_cancel_left_eq]
      exact ⟨fun e => ⟨e, fun h0 => hne (by rw [← e, h0])⟩, And.left⟩

/-- `class _Job` with `@lazy_property def __status`: Python reads `_Job__status`, `__get__`
    stores under `__Job__status`, and two reads of a fresh instance run the initializer
    twice. -/
theorem lazy_key_misses_underscored_class :
    lookupName "_Job" "__status" = "_Job__status" ∧ lazyKey "_Job" "__status" = "__Job__status" ∧
      ∀ init : Dict Nat → Nat, (reads init "__status" "_Job__status" "_Job" 2 (fun _ => none)).2.2 = 2 :=
  ⟨by decide, by decide, fun init => reads_run_initializer_every_time init _ _ _ (by decide) rfl 2⟩

end Slivka.LazyProperty
