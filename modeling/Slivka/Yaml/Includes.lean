/-
  Slivka.Yaml.Includes — how deep `!include`s make `yaml.load` nest, and how many files it
  keeps open.

  `Includes fs cwd p q`: the document of file `p` has an `!include` that opens `q`;
  `Reachable` is its reflexive-transitive closure. `IncludesNorm` is the same relation
  between files named by their absolute, normalised paths. `_include_constructor` keeps no
  set of the files being loaded: it opens and loads whatever file an `!include` names.

  Proved:
  - `construct_error_of_incl`: an error `construct` does not raise itself comes from one of
    the document's `!include`s; `construct_ok_incl`: a construction that returns has had
    every `!include` of the document return.
  - `load_recursion_chain`: a load that reaches the recursion limit with `d` nested loads
    allowed has followed a chain of `d` includes from its file, through files that exist.
  - `loadPath_limit_mono`: a load that does not reach the limit gives the same result
    under any higher limit.
  - `loadPathFd_eq_loadPath`, `loadPathFd_of_ne_recursion`: the open-file limit changes
    nothing while it exceeds the nesting of the load.
  - `loadPath_ne_recursion_of_short_chains`: when every chain of includes from `p` through
    existing files is shorter than the limit, the limit is never reached.
  - `loadPath_ne_recursion_of_acyclic`: when no file reachable from `p` includes itself,
    counting files by normalised path, loading `p` nests no deeper than the number of
    distinct files reachable from it.
  - `self_include_exhausts_limits`: a file whose document is an `!include` of itself, under
    any spelling of its path, is loaded again with one more file open each time, until the
    recursion limit or the open-file limit.
-/

import Slivka.Yaml.Loader
import Mathlib.Data.Finset.Card
import Mathlib.Data.List.Chain
import Mathlib.Logic.Relation

namespace Slivka.Yaml

open Slivka.Python

theorem bind_eq_error {α β : Type} {x : Except LoadError α} {f : α → Except LoadError β} {e : LoadError}
    (h : x >>= f = .error e) : x = .error e ∨ ∃ a, x = .ok a ∧ f a = .error e := by
  cases x with
  | error e' =>
    simp only [bind, Except.bind, Except.error.injEq] at h
    exact .inl (by rw [h])
  | ok a => exact .inr ⟨a, rfl, h⟩

theorem bind_eq_ok {α β : Type} {x : Except LoadError α} {f : α → Except LoadError β} {b : β}
    (h : x >>= f = .ok b) : ∃ a, x = .ok a ∧ f a = .ok b := by
  cases x with
  | error e => cases h
  | ok a => exact ⟨a, rfl, h⟩

mutual
/-- The texts of the `!include` scalars of a document, wherever they stand. -/
def includeValues : Node → List String
  | .scalar tag value => if tag = includeTag then [value] else []
  | .sequence _ items => includeValuesItems items
  | .mapping _ pairs => includeValuesPairs pairs

def includeValuesItems : List Node → List String
  | [] => []
  | n :: ns => includeValues n ++ includeValuesItems ns

def includeValuesPairs : List (Node × Node) → List String
  | [] => []
  | (k, v) :: ps => includeValues k ++ includeValues v ++ includeValuesPairs ps
end

/-- `p`'s document has an `!include` that opens `q`. -/
def Includes (fs : Files) (cwd p q : String) : Prop :=
  ∃ doc, fs p = some doc ∧ ∃ v ∈ includeValues doc, join (loaderRoot cwd (some p)) (includeSplit v).1 = q

def Reachable (fs : Files) (cwd p q : String) : Prop := Relation.ReflTransGen (Includes fs cwd) p q

/-- `Includes` between files named by their absolute, normalised paths: some spelling of `a`
    includes some spelling of `b`. -/
def IncludesNorm (fs : Files) (cwd a b : String) : Prop :=
  ∃ p q, abspath cwd p = a ∧ abspath cwd q = b ∧ Includes fs cwd p q

/-- `/a.yaml` is `{x: !include b.yaml#k}` and `/b.yaml` is `{k: v}`. -/
def twoFiles : Files := fun p =>
  if p = "/a.yaml" then some (.mapping mapTag [(.scalar strTag "x", .scalar includeTag "b.yaml#k")])
  else if p = "/b.yaml" then some (.mapping mapTag [(.scalar strTag "k", .scalar strTag "v")])
  else none

theorem includes_of_twoFiles {p q : String} (h : Includes twoFiles "/" p q) : p = "/a.yaml" ∧ q = "/b.yaml" := by
  obtain ⟨doc, hp, v, hv, rfl⟩ := h
  unfold twoFiles at hp
  split_ifs at hp with ha hb
  · cases hp; subst ha
    simp [includeValues, includeValuesPairs, includeTag, strTag] at hv
    subst hv; decide
  · cases hp
    simp [includeValues, includeValuesPairs, includeTag, strTag] at hv

/-! ## What `construct` raises, and what it needs of its `!include`s -/

/-- An error that `construct` does not raise itself: not a `ConstructorError`, not an
    unhashable key. -/
def LoadError.foreign (e : LoadError) : Prop := e ≠ .constructorError ∧ e ≠ .typeError

mutual
/-- A construction stopped by an error it does not raise itself was stopped by one of its
    `!include`s. -/
theorem construct_error_of_incl {incl : String → Except LoadError Value} {e : LoadError} (he : e.foreign) :
    ∀ doc : Node, construct incl doc = .error e → ∃ v ∈ includeValues doc, incl v = .error e
  | .scalar tag value, h => by
    unfold construct at h; unfold includeValues
    split at h
    · exact ⟨value, by simp [*], h⟩
    · split at h <;> cases h; exact absurd rfl he.1
  | .sequence tag items, h => by
    unfold construct at h; unfold includeValues
    split at h
    · rcases bind_eq_error (f := fun vs => pure (Value.list vs)) h with h | ⟨a, -, h⟩
      · exact constructItems_error_of_incl he items h
      · cases h
    split at h
    · rcases bind_eq_error (f := fun vs => pure (Value.list vs)) h with h | ⟨a, -, h⟩
      · exact constructOmap_error_of_incl he items h
      · cases h
    · cases h; exact absurd rfl he.1
  | .mapping tag pairs, h => by
    unfold construct at h; unfold includeValues
    split at h
    · rcases bind_eq_error h with h | ⟨a, -, h⟩
      · exact constructPairs_error_of_incl he pairs h
      · unfold orderedDict at h; split at h <;> cases h; exact absurd rfl he.2
    split at h
    · rcases bind_eq_error h with h | ⟨a, -, h⟩
      · exact constructPairs_error_of_incl he pairs h
      · unfold pySet at h; split at h <;> cases h; exact absurd rfl he.1
    · cases h; exact absurd rfl he.1

theorem constructItems_error_of_incl {incl : String → Except LoadError Value} {e : LoadError} (he : e.foreign) :
    ∀ items : List Node, constructItems incl items = .error e → ∃ v ∈ includeValuesItems items, incl v = .error e
  | [], h => by cases h
  | n :: ns, h => by
    rcases bind_eq_error h with h | ⟨a, -, h⟩
    · obtain ⟨v, hv, hi⟩ := construct_error_of_incl he n h
      exact ⟨v, by simp [includeValuesItems, hv], hi⟩
    rcases bind_eq_error h with h | ⟨b, -, h⟩
    · obtain ⟨v, hv, hi⟩ := constructItems_error_of_incl he ns h
      exact ⟨v, by simp [includeValuesItems, hv], hi⟩
    · cases h

theorem constructPairs_error_of_incl {incl : String → Except LoadError Value} {e : LoadError} (he : e.foreign) :
    ∀ pairs : List (Node × Node), constructPairs incl pairs = .error e →
      ∃ v ∈ includeValuesPairs pairs, incl v = .error e
  | [], h => by cases h
  | (k, w) :: ps, h => by
    rcases bind_eq_error h with h | ⟨a, -, h⟩
    · obtain ⟨v, hv, hi⟩ := construct_error_of_incl he k h
      exact ⟨v, by simp [includeValuesPairs, hv], hi⟩
    rcases bind_eq_error h with h | ⟨b, -, h⟩
    · obtain ⟨v, hv, hi⟩ := construct_error_of_incl he w h
      exact ⟨v, by simp [includeValuesPairs, hv], hi⟩
    rcases bind_eq_error h with h | ⟨c, -, h⟩
    · obtain ⟨v, hv, hi⟩ := constructPairs_error_of_incl he ps h
      exact ⟨v, by simp [includeValuesPairs, hv], hi⟩
    · cases h

theorem constructOmap_error_of_incl {incl : String → Except LoadError Value} {e : LoadError} (he : e.foreign) :
    ∀ items : List Node, constructOmap incl items = .error e → ∃ v ∈ includeValuesItems items, incl v = .error e
  | [], h => by cases h
  | .mapping t [(k, w)] :: ns, h => by
    have mem : ∀ {v}, v ∈ includeValues k ∨ v ∈ includeValues w ∨ v ∈ includeValuesItems ns →
        v ∈ includeValuesItems (.mapping t [(k, w)] :: ns) := fun hv => by
      simpa [includeValuesItems, includeValues, includeValuesPairs, or_assoc] using hv
    rcases bind_eq_error h with h | ⟨a, -, h⟩
    · obtain ⟨v, hv, hi⟩ := construct_error_of_incl he k h
      exact ⟨v, mem (.inl hv), hi⟩
    rcases bind_eq_error h with h | ⟨b, -, h⟩
    · obtain ⟨v, hv, hi⟩ := construct_error_of_incl he w h
      exact ⟨v, mem (.inr (.inl hv)), hi⟩
    rcases bind_eq_error h with h | ⟨c, -, h⟩
    · obtain ⟨v, hv, hi⟩ := constructOmap_error_of_incl he ns h
      exact ⟨v, mem (.inr (.inr hv)), hi⟩
    · cases h
  | .scalar _ _ :: _, h | .sequence _ _ :: _, h | .mapping _ [] :: _, h | .mapping _ (_ :: _ :: _) :: _, h => by
    cases h; exact absurd rfl he.1
end

mutual
/-- A construction that returns has had every `!include` of the document return. -/
theorem construct_ok_incl {incl : String → Except LoadError Value} :
    ∀ (doc : Node) {v : Value}, construct incl doc = .ok v → ∀ s ∈ includeValues doc, ∃ w, incl s = .ok w
  | .scalar tag value, _, h => by
    unfold construct at h; unfold includeValues
    split
    · rename_i ht; rw [if_pos ht] at h
      intro s hs; rw [List.mem_singleton.mp hs]; exact ⟨_, h⟩
    · simp
  | .sequence tag items, _, h => by
    unfold construct at h; unfold includeValues
    split at h
    · obtain ⟨a, ha, -⟩ := bind_eq_ok (f := fun vs => pure (Value.list vs)) h
      exact constructItems_ok_incl items ha
    split at h
    · obtain ⟨a, ha, -⟩ := bind_eq_ok (f := fun vs => pure (Value.list vs)) h
      exact constructOmap_ok_incl items ha
    · cases h
  | .mapping tag pairs, _, h => by
    unfold construct at h; unfold includeValues
    split at h
    · obtain ⟨a, ha, -⟩ := bind_eq_ok h
      exact constructPairs_ok_incl pairs ha
    split at h
    · obtain ⟨a, ha, -⟩ := bind_eq_ok h
      exact constructPairs_ok_incl pairs ha
    · cases h

theorem constructItems_ok_incl {incl : String → Except LoadError Value} :
    ∀ (items : List Node) {vs : List Value}, constructItems incl items = .ok vs →
      ∀ s ∈ includeValuesItems items, ∃ w, incl s = .ok w
  | [], _, _ => by simp [includeValuesItems]
  | n :: ns, _, h => by
    obtain ⟨a, ha, h⟩ := bind_eq_ok h
    obtain ⟨b, hb, -⟩ := bind_eq_ok h
    simp only [includeValuesItems, List.mem_append]
    rintro s (hs | hs)
    · exact construct_ok_incl n ha s hs
    · exact constructItems_ok_incl ns hb s hs

theorem constructPairs_ok_incl {incl : String → Except LoadError Value} :
    ∀ (pairs : List (Node × Node)) {ps : List (Value × Value)}, constructPairs incl pairs = .ok ps →
      ∀ s ∈ includeValuesPairs pairs, ∃ w, incl s = .ok w
  | [], _, _ => by simp [includeValuesPairs]
  | (k, w) :: ps, _, h => by
    obtain ⟨a, ha, h⟩ := bind_eq_ok h
    obtain ⟨b, hb, h⟩ := bind_eq_ok h
    obtain ⟨c, hc, -⟩ := bind_eq_ok h
    simp only [includeValuesPairs, List.mem_append]
    rintro s ((hs | hs) | hs)
    · exact construct_ok_incl k ha s hs
    · exact construct_ok_incl w hb s hs
    · exact constructPairs_ok_incl ps hc s hs

theorem constructOmap_ok_incl {incl : String → Except LoadError Value} :
    ∀ (items : List Node) {vs : List Value}, constructOmap incl items = .ok vs →
      ∀ s ∈ includeValuesItems items, ∃ w, incl s = .ok w
  | [], _, _ => by simp [includeValuesItems]
  | .mapping t [(k, w)] :: ns, _, h => by
    obtain ⟨a, ha, h⟩ := bind_eq_ok h
    obtain ⟨b, hb, h⟩ := bind_eq_ok h
    obtain ⟨c, hc, -⟩ := bind_eq_ok h
    simp only [includeValuesItems, includeValues, includeValuesPairs, List.append_nil, List.mem_append]
    rintro s ((hs | hs) | hs)
    · exact construct_ok_incl k ha s hs
    · exact construct_ok_incl w hb s hs
    · exact constructOmap_ok_incl ns hc s hs
  | .scalar _ _ :: _, _, h | .sequence _ _ :: _, _, h | .mapping _ [] :: _, _, h
  | .mapping _ (_ :: _ :: _) :: _, _, h => by cases h
end

/-! ## A higher limit changes nothing that did not reach it -/

/-- `y₂` is `y₁` unless `y₁` stopped at the recursion limit. -/
def Agrees {α : Type} (y₂ y₁ : Except LoadError α) : Prop := y₁ ≠ .error .recursion → y₂ = y₁

theorem Agrees.refl {α : Type} (y : Except LoadError α) : Agrees y y := fun _ => rfl

theorem Agrees.bind {α β : Type} {x₂ x₁ : Except LoadError α} {f₂ f₁ : α → Except LoadError β}
    (hx : Agrees x₂ x₁) (hf : ∀ a, Agrees (f₂ a) (f₁ a)) : Agrees (x₂ >>= f₂) (x₁ >>= f₁) := by
  intro h
  cases x₁ with
  | error e => rw [hx (fun e' => h (by rw [e']; rfl))]; rfl
  | ok a => rw [hx (by simp)]; exact hf a h

theorem Agrees.map {α β : Type} {x₂ x₁ : Except LoadError α} (f : α → β) (hx : Agrees x₂ x₁) :
    Agrees (f <$> x₂) (f <$> x₁) := by
  intro h
  cases x₁ with
  | error e => rw [hx (fun e' => h (by rw [e']; rfl))]
  | ok a => rw [hx (by simp)]

mutual
/-- Two `_include_constructor`s that agree on the `!include`s of a document construct it
    alike. -/
theorem construct_agrees {incl₂ incl₁ : String → Except LoadError Value} :
    ∀ doc : Node, (∀ v ∈ includeValues doc, Agrees (incl₂ v) (incl₁ v)) →
      Agrees (construct incl₂ doc) (construct incl₁ doc)
  | .scalar tag value, h => by
    unfold construct; unfold includeValues at h
    split
    · exact h value (by simp [*])
    · exact Agrees.refl _
  | .sequence tag items, h => by
    unfold construct; unfold includeValues at h
    split
    · exact (constructItems_agrees items h).map _
    split
    · exact (constructOmap_agrees items h).map _
    · exact Agrees.refl _
  | .mapping tag pairs, h => by
    unfold construct; unfold includeValues at h
    split
    · exact (constructPairs_agrees pairs h).bind fun _ => Agrees.refl _
    split
    · exact (constructPairs_agrees pairs h).bind fun _ => Agrees.refl _
    · exact Agrees.refl _

theorem constructItems_agrees {incl₂ incl₁ : String → Except LoadError Value} :
    ∀ items : List Node, (∀ v ∈ includeValuesItems items, Agrees (incl₂ v) (incl₁ v)) →
      Agrees (constructItems incl₂ items) (constructItems incl₁ items)
  | [], _ => Agrees.refl _
  | n :: ns, h =>
    (construct_agrees n fun v hv => h v (by simp [includeValuesItems, hv])).bind fun _ =>
      (constructItems_agrees ns fun v hv => h v (by simp [includeValuesItems, hv])).bind fun _ => Agrees.refl _

theorem constructPairs_agrees {incl₂ incl₁ : String → Except LoadError Value} :
    ∀ pairs : List (Node × Node), (∀ v ∈ includeValuesPairs pairs, Agrees (incl₂ v) (incl₁ v)) →
      Agrees (constructPairs incl₂ pairs) (constructPairs incl₁ pairs)
  | [], _ => Agrees.refl _
  | (k, w) :: ps, h =>
    (construct_agrees k fun v hv => h v (by simp [includeValuesPairs, hv])).bind fun _ =>
      (construct_agrees w fun v hv => h v (by simp [includeValuesPairs, hv])).bind fun _ =>
        (constructPairs_agrees ps fun v hv => h v (by simp [includeValuesPairs, hv])).bind fun _ => Agrees.refl _

theorem constructOmap_agrees {incl₂ incl₁ : String → Except LoadError Value} :
    ∀ items : List Node, (∀ v ∈ includeValuesItems items, Agrees (incl₂ v) (incl₁ v)) →
      Agrees (constructOmap incl₂ items) (constructOmap incl₁ items)
  | [], _ => Agrees.refl _
  | .mapping t [(k, w)] :: ns, h => by
    simp only [includeValuesItems, includeValues, includeValuesPairs, List.append_nil, List.mem_append] at h
    exact (construct_agrees k fun v hv => h v (.inl (.inl hv))).bind fun _ =>
      (construct_agrees w fun v hv => h v (.inl (.inr hv))).bind fun _ =>
        (constructOmap_agrees ns fun v hv => h v (.inr hv)).bind fun _ => Agrees.refl _
  | .scalar _ _ :: _, _ | .sequence _ _ :: _, _ | .mapping _ [] :: _, _ | .mapping _ (_ :: _ :: _) :: _, _ =>
    Agrees.refl _
end

/-- Two `_include_constructor`s that give the same result on a document's `!include`s
    construct it alike. -/
theorem construct_congr {incl₁ incl₂ : String → Except LoadError Value} {doc : Node}
    (h : ∀ v ∈ includeValues doc, incl₁ v = incl₂ v) : construct incl₁ doc = construct incl₂ doc := by
  have h12 := construct_agrees doc fun v hv => (fun _ => h v hv : Agrees (incl₁ v) (incl₂ v))
  have h21 := construct_agrees doc fun v hv => (fun _ => (h v hv).symm : Agrees (incl₂ v) (incl₁ v))
  by_cases e₂ : construct incl₂ doc = .error .recursion
  · by_cases e₁ : construct incl₁ doc = .error .recursion
    · rw [e₁, e₂]
    · exact (h21 e₁).symm
  · exact h12 e₂

variable {fs : Files} {cwd : String}

theorem load_agrees_succ (d : Nat) (name : String) (doc : Node) :
    Agrees (load fs cwd (d + 1) name doc) (load fs cwd d name doc) := by
  induction d generalizing name doc with
  | zero => intro h; exact absurd rfl h
  | succ d ih =>
    exact construct_agrees doc fun v _ =>
      (Agrees.refl _).bind fun doc' => (ih _ doc').bind fun _ => Agrees.refl _

theorem loadPath_add_of_ne_recursion {d : Nat} {p : String} (h : loadPath fs cwd d p ≠ .error .recursion)
    (k : Nat) : loadPath fs cwd (d + k) p = loadPath fs cwd d p := by
  induction k with
  | zero => rfl
  | succ k ih =>
    have hs : Agrees (loadPath fs cwd (d + k + 1) p) (loadPath fs cwd (d + k) p) :=
      (Agrees.refl _).bind fun doc => load_agrees_succ _ p doc
    rw [← Nat.add_assoc, hs (by rw [ih]; exact h), ih]

/-- A load that does not reach the recursion limit gives the same result, document or
    error, under every higher limit. -/
theorem loadPath_limit_mono {d d' : Nat} {p : String} (hd : d ≤ d') (h : loadPath fs cwd d p ≠ .error .recursion) :
    loadPath fs cwd d' p = loadPath fs cwd d p := by
  obtain ⟨k, rfl⟩ := Nat.exists_eq_add_of_le hd
  exact loadPath_add_of_ne_recursion h k

/-- `/a.yaml` loads with two nested loads allowed, so five give the same result. -/
theorem two_files_same_load_at_five : loadPath twoFiles "/" 5 "/a.yaml" = loadPath twoFiles "/" 2 "/a.yaml" :=
  loadPath_limit_mono (by decide) (fun h => nomatch h)

/-! ## Open files -/

theorem includeConstructorFd_succ (f : Nat) (L : String → Node → Except LoadError Value) (root : String) :
    includeConstructorFd fs (f + 1) L root = includeConstructor fs L root := funext fun _ => if_neg (Nat.succ_ne_zero f)

/-- With a file descriptor for every nested load, the open-file limit is never reached. -/
theorem loadFd_eq_load {d f : Nat} (h : d ≤ f) (name : String) (doc : Node) :
    loadFd fs cwd f d name doc = load fs cwd d name doc := by
  induction d generalizing f name doc with
  | zero => rfl
  | succ d ih =>
    obtain ⟨f, rfl⟩ := Nat.exists_eq_add_of_lt (Nat.lt_of_lt_of_le (Nat.zero_lt_succ d) h)
    have hL : loadFd fs cwd f d = load fs cwd d := funext fun n => funext (ih (by omega) n)
    simp only [loadFd, load, Nat.zero_add, includeConstructorFd_succ, Nat.add_sub_cancel, hL]

/-- `loadPath` is `loadPathFd` with more files allowed open than nested loads. -/
theorem loadPathFd_eq_loadPath {F d : Nat} (h : d < F) (p : String) :
    loadPathFd fs cwd F d p = loadPath fs cwd d p := by
  obtain ⟨F, rfl⟩ := Nat.exists_eq_add_of_lt (Nat.lt_of_le_of_lt (Nat.zero_le d) h)
  simp only [loadPathFd, Nat.add_eq_zero, one_ne_zero, and_false, if_false, Nat.add_sub_cancel, Nat.zero_add,
    loadPath]
  exact congrArg (openFile fs p >>= ·) (funext (loadFd_eq_load (by omega) p))

/-- A load that fits in `m` nested loads gives the same result under any recursion limit
    and open-file limit above that. -/
theorem loadFd_agrees {m : Nat} : ∀ {d f : Nat}, m ≤ d → m ≤ f → ∀ name doc,
    Agrees (loadFd fs cwd f d name doc) (load fs cwd m name doc) := by
  induction m with
  | zero => intro _ _ _ _ _ _ h; exact absurd rfl h
  | succ m ih =>
    intro d f hd hf name doc
    obtain ⟨d, rfl⟩ : ∃ d', d = d' + 1 := ⟨d - 1, by omega⟩
    obtain ⟨f, rfl⟩ : ∃ f', f = f' + 1 := ⟨f - 1, by omega⟩
    simp only [loadFd, load, includeConstructorFd_succ, Nat.add_sub_cancel]
    exact construct_agrees doc fun v _ =>
      (Agrees.refl _).bind fun doc' => (ih (by omega) (by omega) _ doc').bind fun _ => Agrees.refl _

theorem loadPathFd_of_ne_recursion {m F d : Nat} {p : String} (h : loadPath fs cwd m p ≠ .error .recursion)
    (hd : m ≤ d) (hF : m < F) : loadPathFd fs cwd F d p = loadPath fs cwd m p := by
  obtain ⟨F, rfl⟩ := Nat.exists_eq_add_of_lt (Nat.lt_of_le_of_lt (Nat.zero_le m) hF)
  simp only [loadPathFd, Nat.add_eq_zero, one_ne_zero, and_false, if_false, Nat.add_sub_cancel, Nat.zero_add]
  exact ((Agrees.refl _).bind fun doc => loadFd_agrees hd (by omega) p doc) h

/-! ## A recursion error follows a chain of includes -/

theorem openFile_ne_recursion (p : String) : openFile fs p ≠ .error .recursion := by
  unfold openFile; split <;> simp

theorem fs_of_openFile {p : String} {doc : Node} (h : openFile fs p = .ok doc) : fs p = some doc := by
  unfold openFile at h; split at h <;> simp_all

/-- `obj[key]` raises `KeyError` or `TypeError`, nothing else. -/
theorem getItem_error {obj : Value} {key : String} {e : LoadError} (h : getItem obj key = .error e) :
    (∃ k, e = .keyError k) ∨ e = .typeError := by
  unfold getItem at h
  split at h
  · split at h <;> cases h; exact .inl ⟨_, rfl⟩
  · cases h; exact .inr rfl

/-- Following a key path raises `KeyError` or `TypeError`, nothing else. -/
theorem navigate_error {obj : Value} {keys : List String} {e : LoadError} (h : navigate obj keys = .error e) :
    (∃ k, e = .keyError k) ∨ e = .typeError := by
  induction keys generalizing obj with
  | nil => cases h
  | cons key keys ih =>
    rcases bind_eq_error h with h | ⟨o, -, h⟩
    · exact getItem_error h
    · exact ih h

/-- An `!include` stopped by the recursion limit opened its file and the nested load of it
    was stopped. -/
theorem includeConstructor_recursion {L : String → Node → Except LoadError Value} {root v : String}
    (h : includeConstructor fs L root v = .error .recursion) :
    ∃ doc, fs (join root (includeSplit v).1) = some doc ∧ L (join root (includeSplit v).1) doc = .error .recursion := by
  rcases bind_eq_error h with h | ⟨doc, hd, h⟩
  · exact absurd h (openFile_ne_recursion _)
  rcases bind_eq_error h with h | ⟨obj, -, h⟩
  · exact ⟨doc, fs_of_openFile hd, h⟩
  · rcases navigate_error h with ⟨_, h⟩ | h <;> cases h

/-- A load of `p` stopped by the recursion limit with `d` nested loads allowed followed a
    chain of `d` includes from `p`, through files that exist. -/
theorem load_recursion_chain {d : Nat} {p : String} {doc : Node} (hp : fs p = some doc)
    (h : load fs cwd d p doc = .error .recursion) :
    ∃ l : List String, l.length = d ∧ List.Chain (Includes fs cwd) p l ∧ ∀ q ∈ p :: l, (fs q).isSome := by
  induction d generalizing p doc with
  | zero => exact ⟨[], rfl, .nil, by simp [hp]⟩
  | succ d ih =>
    obtain ⟨v, hv, hi⟩ := construct_error_of_incl ⟨by simp, by simp⟩ doc h
    obtain ⟨doc', hq, hl⟩ := includeConstructor_recursion hi
    obtain ⟨l, hlen, hc, hex⟩ := ih hq hl
    refine ⟨_ :: l, by simp [hlen], .cons ⟨doc, hp, v, hv, rfl⟩ hc, fun q hq' => ?_⟩
    rcases List.mem_cons.mp hq' with rfl | hq'
    · simp [hp]
    · exact hex q hq'

theorem loadPath_recursion_chain {d : Nat} {p : String} (h : loadPath fs cwd d p = .error .recursion) :
    ∃ l : List String, l.length = d ∧ List.Chain (Includes fs cwd) p l ∧ ∀ q ∈ p :: l, (fs q).isSome := by
  rcases bind_eq_error h with h | ⟨doc, hd, h⟩
  · exact absurd h (openFile_ne_recursion _)
  · exact load_recursion_chain (fs_of_openFile hd) h

/-- When every chain of includes from `p` through files that exist is shorter than `d`,
    loading `p` with `d` nested loads allowed never reaches the recursion limit. -/
theorem loadPath_ne_recursion_of_short_chains {d : Nat} {p : String}
    (h : ∀ l : List String, List.Chain (Includes fs cwd) p l → (∀ q ∈ p :: l, (fs q).isSome) → l.length < d) :
    loadPath fs cwd d p ≠ .error .recursion := fun hr => by
  obtain ⟨l, hlen, hc, hex⟩ := loadPath_recursion_chain hr
  exact absurd (h l hc hex) (by omega)

/-- Every chain of includes from `/a.yaml` has at most one step, so two nested loads are
    enough. -/
theorem two_files_chains_fit_in_two : loadPath twoFiles "/" 2 "/a.yaml" ≠ .error .recursion :=
  loadPath_ne_recursion_of_short_chains fun l hc _ => by
    rcases hc with _ | ⟨h₁, hc⟩
    · decide
    · rcases hc with _ | ⟨h₂, -⟩
      · simp
      · exact absurd ((includes_of_twoFiles h₁).2.symm.trans (includes_of_twoFiles h₂).1) (by decide)

/-! ## The depth of an acyclic load -/

section Chains

variable {α : Type} {r : α → α → Prop} {a : α} {l : List α}

/-- The elements of a chain are reachable from its start, each strictly after the ones
    before it. -/
theorem chain_pairwise (hc : List.Chain r a l) : List.Pairwise (Relation.TransGen r) (a :: l) :=
  List.chain'_iff_pairwise.mp (List.Chain'.imp (fun _ _ h => Relation.TransGen.single h) hc)

theorem chain_reachable (hc : List.Chain r a l) {b : α} (hb : b ∈ a :: l) : Relation.ReflTransGen r a b := by
  rcases List.mem_cons.mp hb with rfl | hb
  · exact Relation.ReflTransGen.refl
  · exact ((List.pairwise_cons.mp (chain_pairwise hc)).1 b hb).to_reflTransGen

/-- Where nothing reachable from `a` reaches itself, a chain from `a` visits nothing twice. -/
theorem chain_nodup (hc : List.Chain r a l)
    (hacyclic : ∀ b, Relation.ReflTransGen r a b → ¬ Relation.TransGen r b b) : (a :: l).Nodup := by
  refine List.Pairwise.imp_of_mem (S := (· ≠ ·)) (fun {b c} hb _ hbc e => ?_) (chain_pairwise hc)
  subst e
  exact hacyclic b (chain_reachable hc hb) hbc

end Chains

/-- A chain of includes, its files named by their normalised paths. -/
theorem chain_includesNorm {p : String} {l : List String} (hc : List.Chain (Includes fs cwd) p l) :
    List.Chain (IncludesNorm fs cwd) (abspath cwd p) (l.map (abspath cwd)) :=
  List.chain_map_of_chain _ (fun _ _ h => ⟨_, _, rfl, rfl, h⟩) hc

/-- With no include cycle reachable from `p`, counting files by their absolute normalised
    paths, loading `p` with as many nested loads allowed as there are distinct files
    reachable from it never reaches the recursion limit. -/
theorem loadPath_ne_recursion_of_acyclic {p : String} (S : Finset String)
    (hS : ∀ q, Reachable fs cwd p q → (fs q).isSome → abspath cwd q ∈ S)
    (hacyclic : ∀ a, Relation.ReflTransGen (IncludesNorm fs cwd) (abspath cwd p) a →
      ¬ Relation.TransGen (IncludesNorm fs cwd) a a) :
    loadPath fs cwd S.card p ≠ .error .recursion := by
  intro h
  obtain ⟨l, hlen, hc, hex⟩ := loadPath_recursion_chain h
  have hsub : ((p :: l).map (abspath cwd)).toFinset ⊆ S := fun a ha => by
    obtain ⟨q, hq, rfl⟩ := List.mem_map.mp (List.mem_toFinset.mp ha)
    exact hS q (chain_reachable hc hq) (hex q hq)
  have hle := Finset.card_le_card hsub
  rw [List.map_cons, List.toFinset_card_of_nodup (chain_nodup (chain_includesNorm hc) hacyclic),
    List.length_cons, List.length_map, hlen] at hle
  omega

/-! ## No cycle guard -/

/-- A file system of POSIX paths: two spellings of one absolute, normalised path open the
    same file (symbolic links aside). -/
def Files.Posix (fs : Files) (cwd : String) : Prop := ∀ p q, abspath cwd p = abspath cwd q → fs p = fs q

/-- The `root_path` of a loader reading a file opened by an absolute path: the normalised
    directory of that path, whatever the working directory. -/
theorem loaderRoot_abs {p : String} (h : startswith p "/" = true) (cwd : String) :
    loaderRoot cwd (some p) = normpath (dirname p) := by
  simp only [loaderRoot, abspath, dirname_abs h, if_true]

/-- A loader rooted at `r` reading `!include v`, where `v` names from `r` a file holding the
    same document and read by a loader rooted at `r` again: each nested load holds one more
    file open, until one of the two limits. -/
theorem loadFd_include_loop {r v : String} (hq : fs (join r (includeSplit v).1) = some (.scalar includeTag v))
    (hr : loaderRoot cwd (some (join r (includeSplit v).1)) = r) :
    ∀ d f n, loaderRoot cwd (some n) = r →
      loadFd fs cwd f d n (.scalar includeTag v) = if d ≤ f then .error .recursion else .error .tooManyOpenFiles
  | 0, _, _, _ => (if_pos (Nat.zero_le _)).symm
  | d + 1, 0, n, _ => rfl
  | d + 1, f + 1, n, hn => by
    have ih := loadFd_include_loop hq hr d f _ hr
    simp only [loadFd, construct, if_true, hn, includeConstructorFd_succ, Nat.add_sub_cancel]
    simp only [includeConstructor, openFile, hq, bind, Except.bind, ih, Nat.add_le_add_iff_right]
    split_ifs <;> rfl

/-- A file whose document is an `!include` of itself, spelled in any way that normalises to
    its path, is loaded again and again, each nested load holding one more file open: the
    load ends at the recursion limit or at the open-file limit, whichever comes first, and no
    include cycle is reported. -/
theorem self_include_exhausts_limits {p v : String} (hposix : fs.Posix cwd) (hp : startswith p "/" = true)
    (hpf : namesFile p) (hdoc : fs p = some (.scalar includeTag v))
    (hq : namesFile (join (loaderRoot cwd (some p)) (includeSplit v).1))
    (hqp : normpath (join (loaderRoot cwd (some p)) (includeSplit v).1) = normpath p) (F d : Nat) :
    loadPathFd fs cwd F d p = if d < F then .error .recursion else .error .tooManyOpenFiles := by
  have hqabs : startswith (join (loaderRoot cwd (some p)) (includeSplit v).1) "/" = true := by
    rw [loaderRoot_abs hp]; exact join_abs (normpath_abs (dirname_abs hp)) _
  have hfs : fs (join (loaderRoot cwd (some p)) (includeSplit v).1) = some (.scalar includeTag v) := by
    rw [← hdoc]; exact hposix _ _ (by simp only [abspath, hqabs, hp, if_true, hqp])
  have hroot : loaderRoot cwd (some (join (loaderRoot cwd (some p)) (includeSplit v).1)) = loaderRoot cwd (some p) := by
    rw [loaderRoot_abs hqabs, normpath_dirname hqabs hq, hqp, loaderRoot_abs hp, normpath_dirname hp hpf]
  cases F with
  | zero => rfl
  | succ F =>
    simp only [loadPathFd, Nat.add_eq_zero, one_ne_zero, and_false, if_false, Nat.add_sub_cancel, openFile, hdoc]
    show loadFd fs cwd F d p (.scalar includeTag v) = _
    rw [loadFd_include_loop hfs hroot d F p rfl]
    simp only [Nat.lt_succ_iff]

end Slivka.Yaml
