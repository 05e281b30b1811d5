/-
  Slivka.Python — the `str` methods and the `posixpath` functions slivka/utils.py calls,
  over `String`, written on the character list so that they evaluate.

  `lazy_property.__get__` uses `startswith`/`endswith`; the YAML loader uses `split`,
  `os.path.join`, `os.path.dirname` and `os.path.abspath` (`normpath` after joining the
  working directory `cwd`, a parameter here).

  Round trips used by the loader's `!include` paths: `split_joinWith` (splitting a joined
  list of pieces gives the pieces back) and `split1_append` (`split(c, 1)` cuts at the
  first `c`). `join_abs`, `dirname_abs`, `normpath_abs`: `join`, `dirname` and `normpath`
  keep a path absolute. `normpath_dirname`: for an absolute path that names a file,
  `normpath(dirname(x)) == dirname(normpath(x))`, so every spelling of a file's path gives
  a loader the same `root_path`.
-/

import Mathlib.Data.List.Basic

namespace Slivka.Python

/-- `s.startswith(p)`. -/
def startswith (s p : String) : Bool := p.toList.isPrefixOf s.toList

/-- `s.endswith(p)`. -/
def endswith (s p : String) : Bool := p.toList.isSuffixOf s.toList

/-- `sep.join(parts)`. -/
def joinWith (sep : String) : List String → String
  | [] => ""
  | [a] => a
  | a :: as => a ++ sep ++ joinWith sep as

theorem joinWith_append_singleton (sep : String) (b : String) :
    ∀ l : List String, joinWith sep (l ++ [b]) = if l = [] then b else joinWith sep l ++ sep ++ b
  | [] => rfl
  | [a] => rfl
  | a :: a' :: l => by
    have ih := joinWith_append_singleton sep b (a' :: l)
    rw [if_neg (List.cons_ne_nil _ _)] at ih
    show a ++ sep ++ joinWith sep (a' :: l ++ [b]) = _
    rw [ih, if_neg (List.cons_ne_nil _ _)]
    simp only [joinWith, String.append_assoc]

def splitAux (c : Char) : List Char → List Char → List String
  | [], acc => [String.mk acc.reverse]
  | x :: xs, acc => if x = c then String.mk acc.reverse :: splitAux c xs [] else splitAux c xs (x :: acc)

/-- `s.split(c)`: every piece, empty ones included. -/
def split (s : String) (c : Char) : List String := splitAux c s.toList []

theorem splitAux_append {c : Char} {l : List Char} (hl : c ∉ l) (r acc : List Char) :
    splitAux c (l ++ r) acc = splitAux c r (l.reverse ++ acc) := by
  induction l generalizing acc with
  | nil => rfl
  | cons x l ih =>
    rw [List.mem_cons, not_or] at hl
    simp [splitAux, Ne.symm hl.1, ih hl.2]

/-- `c.join(ks).split(c)` gives back `ks` when no piece holds `c`. -/
theorem split_joinWith {c : Char} {ks : List String} (hne : ks ≠ []) (hks : ∀ k ∈ ks, c ∉ k.toList) :
    split (joinWith (String.singleton c) ks) c = ks := by
  induction ks with
  | nil => exact absurd rfl hne
  | cons k ks ih =>
    have hk := splitAux_append (hks k (List.mem_cons_self _ _))
    cases ks with
    | nil => simpa [joinWith, split, splitAux] using hk [] []
    | cons k2 ks =>
      have ih' := ih (List.cons_ne_nil _ _) fun k' h => hks k' (List.mem_cons_of_mem _ h)
      simp only [split, joinWith, String.toList, String.data_append, String.data_singleton, List.append_assoc,
        List.singleton_append] at ih' ⊢
      rw [show k.data = k.toList from rfl, hk, List.append_nil]
      simp [splitAux, ih']

theorem splitAux_sep (c : Char) (l r acc : List Char) :
    splitAux c (l ++ c :: r) acc = splitAux c l acc ++ splitAux c r [] := by
  induction l generalizing acc with
  | nil => simp [splitAux]
  | cons x l ih => by_cases h : x = c <;> simp [splitAux, h, ih]

theorem split_append_sep (a b : String) : split (a ++ "/" ++ b) '/' = split a '/' ++ split b '/' := by
  simp only [split, String.toList, String.data_append, show "/" = String.singleton '/' from rfl,
    String.data_singleton, List.append_assoc, List.singleton_append, splitAux_sep]

theorem split_of_not_mem {b : String} (hb : '/' ∉ b.toList) : split b '/' = [b] := by
  simpa [split, splitAux] using splitAux_append hb [] []

theorem not_mem_of_mem_splitAux {c : Char} : ∀ {l acc : List Char}, c ∉ acc →
    ∀ piece ∈ splitAux c l acc, c ∉ piece.toList
  | [], acc, h, piece, hp => by
    simp only [splitAux, List.mem_singleton] at hp; subst hp; simpa [String.toList] using h
  | x :: l, acc, h, piece, hp => by
    unfold splitAux at hp
    split at hp
    · rcases List.mem_cons.mp hp with rfl | hp
      · simpa [String.toList] using h
      · exact not_mem_of_mem_splitAux (List.not_mem_nil c) piece hp
    · exact not_mem_of_mem_splitAux (by simp [*, Ne.symm]) piece hp


def splitOnce : Char → List Char → Option (List Char × List Char)
  | _, [] => none
  | c, x :: xs => if x = c then some ([], xs) else (splitOnce c xs).map fun (a, b) => (x :: a, b)

/-- `s.split(c, 1)`: `[s]` when `c` does not occur, else the text before its first
    occurrence and the rest. -/
def split1 (s : String) (c : Char) : List String :=
  match splitOnce c s.toList with
  | some (a, b) => [String.mk a, String.mk b]
  | none => [s]

theorem splitOnce_append {c : Char} {a : List Char} (ha : c ∉ a) (b : List Char) :
    splitOnce c (a ++ c :: b) = some (a, b) := by
  induction a with
  | nil => simp [splitOnce]
  | cons x a ih =>
    rw [List.mem_cons, not_or] at ha
    simp [splitOnce, Ne.symm ha.1, ih ha.2]

theorem splitOnce_of_not_mem {c : Char} {a : List Char} (ha : c ∉ a) : splitOnce c a = none := by
  induction a with
  | nil => rfl
  | cons x a ih =>
    rw [List.mem_cons, not_or] at ha
    simp [splitOnce, Ne.symm ha.1, ih ha.2]

/-- `(a + c + b).split(c, 1)` is `[a, b]` when `a` holds no `c`. -/
theorem split1_append {c : Char} {a : String} (ha : c ∉ a.toList) (b : String) :
    split1 (a ++ String.singleton c ++ b) c = [a, b] := by
  simp only [split1, String.toList, String.data_append, String.data_singleton, List.singleton_append,
    List.append_assoc, splitOnce_append (a := a.data) ha]

theorem split1_of_not_mem {c : Char} {a : String} (ha : c ∉ a.toList) : split1 a c = [a] := by
  simp only [split1, splitOnce_of_not_mem ha]

/-- `s.rstrip(c)`. -/
def rstrip (s : String) (c : Char) : String := String.mk (s.toList.reverse.dropWhile (· = c)).reverse

/-- `posixpath.join(a, b)`. -/
def join (a b : String) : String :=
  if startswith b "/" then b
  else if a = "" || endswith a "/" then a ++ b
  else a ++ "/" ++ b

/-- `posixpath.dirname(p)`: `p[:p.rfind('/') + 1]`, trailing slashes stripped unless it is
    all slashes. -/
def dirname (p : String) : String :=
  let head := String.mk (p.toList.reverse.dropWhile (· ≠ '/')).reverse
  if head ≠ "" ∧ ¬ head.toList.all (· = '/') then rstrip head '/' else head

/-- One component of `posixpath.normpath`'s loop over a reversed stack of components. -/
def normStep (initialSlashes : Nat) (stack : List String) (comp : String) : List String :=
  if comp = "" ∨ comp = "." then stack
  else if comp ≠ ".." ∨ (initialSlashes = 0 ∧ stack = []) ∨ stack.head? = some ".." then comp :: stack
  else stack.tail

/-- `posixpath.normpath(p)`. -/
def normpath (p : String) : String :=
  if p = "" then "."
  else
    let initialSlashes : Nat :=
      if startswith p "//" && !startswith p "///" then 2 else if startswith p "/" then 1 else 0
    let comps := ((split p '/').foldl (normStep initialSlashes) []).reverse
    let path := String.mk (List.replicate initialSlashes '/') ++ joinWith "/" comps
    if path = "" then "." else path

/-- `os.path.abspath(p)` in the working directory `cwd`. -/
def abspath (cwd p : String) : String := normpath (if startswith p "/" then p else join cwd p)

/-! ## Absolute paths -/

theorem startswith_slash_iff {s : String} : startswith s "/" = true ↔ ∃ t, s.toList = '/' :: t := by
  simp only [startswith, List.isPrefixOf_iff_prefix]
  exact ⟨fun ⟨t, ht⟩ => ⟨t, ht.symm⟩, fun ⟨t, ht⟩ => ⟨t, ht.symm⟩⟩

theorem startswith_slash_append {a : String} (h : startswith a "/" = true) (b : String) :
    startswith (a ++ b) "/" = true := by
  obtain ⟨t, ht⟩ := startswith_slash_iff.mp h
  exact startswith_slash_iff.mpr ⟨t ++ b.toList, by simp only [String.toList, String.data_append] at ht ⊢; simp [ht]⟩

theorem join_abs {a : String} (h : startswith a "/" = true) (b : String) : startswith (join a b) "/" = true := by
  unfold join
  split_ifs
  · assumption
  · exact startswith_slash_append h b
  · exact startswith_slash_append (startswith_slash_append h _) b

/-- `posixpath.dirname` of an absolute path is absolute. -/
theorem dirname_abs {p : String} (h : startswith p "/" = true) : startswith (dirname p) "/" = true := by
  obtain ⟨t, ht⟩ := startswith_slash_iff.mp h
  -- the text up to the last `/` is `/` followed by the rest of that prefix
  obtain ⟨u, hu⟩ : ∃ u, (p.toList.reverse.dropWhile (· ≠ '/')).reverse = '/' :: u := by
    rw [ht, List.reverse_cons, List.dropWhile_append]
    split
    · simp
    · exact ⟨(t.reverse.dropWhile (· ≠ '/')).reverse, by simp⟩
  unfold dirname
  simp only
  split_ifs with hd
  · unfold rstrip
    apply startswith_slash_iff.mpr
    simp only [String.toList] at hu ⊢
    have hall : ¬ (u.all fun x => decide (x = '/')) = true := by
      have := hd.2
      simp only [String.toList] at this
      rw [hu] at this
      simpa using this
    rw [hu, List.reverse_cons, List.dropWhile_append, if_neg]
    · exact ⟨(u.reverse.dropWhile fun x => decide (x = '/')).reverse, by simp⟩
    · intro he
      have h' := List.takeWhile_append_dropWhile (fun x => decide (x = '/')) u.reverse
      rw [List.isEmpty_iff.mp he, List.append_nil] at h'
      apply hall
      rw [← List.all_reverse, ← h']
      exact List.all_takeWhile
  · exact startswith_slash_iff.mpr ⟨u, hu⟩

theorem replicate_slash_abs {k : Nat} (hk : 0 < k) (s : String) :
    startswith (String.mk (List.replicate k '/') ++ s) "/" = true := by
  obtain ⟨k, rfl⟩ := Nat.exists_eq_add_of_lt hk
  exact startswith_slash_append (startswith_slash_iff.mpr ⟨_, rfl⟩) s

/-- `initial_slashes` of `posixpath.normpath`: two when `p` starts with exactly two slashes,
    else one when it starts with one. -/
def initialSlashes (p : String) : Nat :=
  if startswith p "//" && !startswith p "///" then 2 else if startswith p "/" then 1 else 0

/-- What `normpath` makes of the pieces of a non-empty path with `k` initial slashes. -/
def normTail (k : Nat) (pieces : List String) : String :=
  let path := String.mk (List.replicate k '/') ++ joinWith "/" (pieces.foldl (normStep k) []).reverse
  if path = "" then "." else path

theorem normpath_eq (p : String) :
    normpath p = if p = "" then "." else normTail (initialSlashes p) (split p '/') := rfl

theorem normTail_of_pos {k : Nat} (hk : 0 < k) (pieces : List String) :
    normTail k pieces = String.mk (List.replicate k '/') ++ joinWith "/" (pieces.foldl (normStep k) []).reverse := by
  refine if_neg fun e => ?_
  have := congrArg (fun s => s.data.length) e
  simp at this
  omega

theorem initialSlashes_pos {p : String} (h : startswith p "/" = true) : 0 < initialSlashes p := by
  unfold initialSlashes; split_ifs <;> simp_all

/-- `posixpath.normpath` of an absolute path is absolute. -/
theorem normpath_abs {p : String} (h : startswith p "/" = true) : startswith (normpath p) "/" = true := by
  have hp : p ≠ "" := by rintro rfl; exact absurd h (by decide)
  rw [normpath_eq, if_neg hp, normTail_of_pos (initialSlashes_pos h)]
  exact replicate_slash_abs (initialSlashes_pos h) _

/-! ## The directory of a normalised path -/

/-- A run of slashes is a prefix of `R ++ T` exactly when it is one of `R`, unless `R` is all
    slashes and `T` goes on with one. -/
theorem startswith_append_slashes {R T s : String} (hs : ∀ c ∈ s.toList, c = '/')
    (h : T.toList.head? ≠ some '/' ∨ ∃ c ∈ R.toList, c ≠ '/') : startswith (R ++ T) s = startswith R s := by
  have hRT : (R ++ T).toList = R.toList ++ T.toList := String.data_append R T
  unfold startswith
  rw [hRT, Bool.eq_iff_iff, List.isPrefixOf_iff_prefix, List.isPrefixOf_iff_prefix]
  refine ⟨fun hp => ?_, fun hp => hp.trans (List.prefix_append _ _)⟩
  rcases List.prefix_or_prefix_of_prefix hp (List.prefix_append R.toList T.toList) with hp' | ⟨U, hU⟩
  · exact hp'
  · rw [← hU] at hs hp ⊢
    have hR : ∀ c ∈ R.toList, c = '/' := fun c hc => hs c (List.mem_append_left _ hc)
    have hT : T.toList.head? ≠ some '/' := h.resolve_right fun ⟨c, hc, hc'⟩ => hc' (hR c hc)
    obtain ⟨V, hV⟩ := (List.prefix_append_right_inj R.toList).mp hp
    cases U with
    | nil => simp
    | cons u U =>
      rw [← hV] at hT
      exact absurd (by simp [hs u (by simp)]) hT

theorem initialSlashes_append {R T : String} (h : T.toList.head? ≠ some '/' ∨ ∃ c ∈ R.toList, c ≠ '/') :
    initialSlashes (R ++ T) = initialSlashes R := by
  have hs : ∀ s : String, (∀ c ∈ s.toList, c = '/') → startswith (R ++ T) s = startswith R s :=
    fun s hs => startswith_append_slashes hs h
  simp only [initialSlashes, hs "//" (by decide), hs "///" (by decide), hs "/" (by decide)]

theorem normStep_empty (k : Nat) (S : List String) : normStep k S "" = S := by simp [normStep]

theorem normStep_name {b : String} (hb : b ≠ "" ∧ b ≠ "." ∧ b ≠ "..") (k : Nat) (S : List String) :
    normStep k S b = b :: S := by
  simp [normStep, hb.1, hb.2.1, hb.2.2]

/-- The components `normpath` keeps are pieces it was given: non-empty, without `/`. -/
theorem foldl_normStep_pieces {k : Nat} : ∀ {pieces S : List String},
    (∀ e ∈ S, e ≠ "" ∧ '/' ∉ e.toList) → (∀ e ∈ pieces, '/' ∉ e.toList) →
      ∀ e ∈ pieces.foldl (normStep k) S, e ≠ "" ∧ '/' ∉ e.toList
  | [], _, hS, _ => hS
  | c :: cs, S, hS, hp => by
    rw [List.foldl_cons]
    refine foldl_normStep_pieces (fun e he => ?_) (fun e he => hp e (List.mem_cons_of_mem _ he))
    unfold normStep at he
    split_ifs at he with h1 h2
    · exact hS e he
    · rcases List.mem_cons.mp he with rfl | he
      · exact ⟨fun h => h1 (.inl h), hp e (List.mem_cons_self _ _)⟩
      · exact hS e he
    · exact hS e (List.mem_of_mem_tail he)

theorem split_pieces (p : String) : ∀ e ∈ split p '/', '/' ∉ e.toList :=
  not_mem_of_mem_splitAux (List.not_mem_nil _)

/-- `dirname` looks no further than the last `/`. -/
theorem dirname_append_of_not_mem (P : String) {b : String} (hb : '/' ∉ b.toList) :
    dirname (P ++ b) = dirname P := by
  have h : (b.toList.reverse.dropWhile (· ≠ '/')).isEmpty := by
    rw [List.isEmpty_iff, List.dropWhile_eq_nil_iff]
    intro c hc
    exact decide_eq_true fun e => hb (e ▸ List.mem_reverse.mp hc)
  unfold dirname
  simp only [String.toList, String.data_append, List.reverse_append, List.dropWhile_append] at h ⊢
  rw [if_pos h]

/-- `dirname` of a path ending in `/`: the path with its trailing slashes stripped, unless
    it is all slashes. -/
theorem dirname_append_slash (Q : String) :
    dirname (Q ++ "/") = if (Q ++ "/").toList.all (· = '/') then Q ++ "/" else rstrip (Q ++ "/") '/' := by
  have h : ((Q ++ "/").toList.reverse.dropWhile (· ≠ '/')).reverse = (Q ++ "/").toList := by
    simp [String.toList, show "/" = String.singleton '/' from rfl]
  have hne : Q ++ "/" ≠ "" := fun e => by simpa [String.toList] using congrArg String.toList e
  unfold dirname
  simp only [h]
  show (if Q ++ "/" ≠ "" ∧ ¬ (Q ++ "/").toList.all (· = '/') then rstrip (Q ++ "/") '/' else Q ++ "/") = _
  by_cases hall : (Q ++ "/").toList.all (· = '/')
  · rw [if_neg fun h => h.2 hall, if_pos hall]
  · rw [if_pos ⟨hne, hall⟩, if_neg hall]

theorem rstrip_append_slash {Q : String} (hQ : Q.toList.getLast? ≠ some '/') : rstrip (Q ++ "/") '/' = Q := by
  have hd : Q.toList.reverse.dropWhile (· = '/') = Q.toList.reverse := by
    cases h : Q.toList.reverse with
    | nil => rfl
    | cons c l =>
      have hc : c ≠ '/' := fun e => hQ (by rw [← List.head?_reverse, h, e]; rfl)
      simp [List.dropWhile_cons, hc]
  unfold rstrip
  simp only [String.toList, String.data_append, show "/" = String.singleton '/' from rfl, String.data_singleton,
    List.reverse_append, List.reverse_singleton, List.singleton_append, List.dropWhile_cons, decide_True,
    if_true] at hd ⊢
  rw [hd, List.reverse_reverse]

theorem split_append_slash (Z : String) : split (Z ++ "/") '/' = split Z '/' ++ [""] := by
  simpa using split_append_sep Z ""

theorem normTail_append_empty (k : Nat) (pieces : List String) : normTail k (pieces ++ [""]) = normTail k pieces := by
  simp only [normTail, List.foldl_append, List.foldl_cons, List.foldl_nil, normStep_empty]

theorem ne_empty_of_mem {Z : String} {c : Char} (hc : c ∈ Z.toList) : Z ≠ "" := by
  rintro rfl; cases hc

/-- A trailing slash does not change `normpath` of a path that is not all slashes. -/
theorem normpath_append_slash {Z : String} (h : ∃ c ∈ Z.toList, c ≠ '/') : normpath (Z ++ "/") = normpath Z := by
  obtain ⟨c, hc, -⟩ := id h
  have hZ' : Z ++ "/" ≠ "" := ne_empty_of_mem (c := c) (by simp [String.toList] at hc ⊢; exact .inl hc)
  rw [normpath_eq, normpath_eq, if_neg hZ', if_neg (ne_empty_of_mem hc), initialSlashes_append (.inr h),
    split_append_slash, normTail_append_empty]

theorem normpath_append_slashes {Z : String} (h : ∃ c ∈ Z.toList, c ≠ '/') :
    ∀ n, normpath (Z ++ String.mk (List.replicate n '/')) = normpath Z
  | 0 => by simp
  | n + 1 => by
    have e : Z ++ String.mk (List.replicate (n + 1) '/') = Z ++ String.mk (List.replicate n '/') ++ "/" := by
      simp [String.ext_iff, List.replicate_succ', show "/" = String.singleton '/' from rfl]
    obtain ⟨c, hc, hc'⟩ := h
    rw [e, normpath_append_slash ⟨c, by simp [String.toList] at hc ⊢; exact .inl hc, hc'⟩,
      normpath_append_slashes ⟨c, hc, hc'⟩ n]

/-- `s.rstrip(c)` takes off a run of `c`s. -/
theorem rstrip_append_replicate (y : String) (c : Char) : ∃ n, y = rstrip y c ++ String.mk (List.replicate n c) := by
  refine ⟨(y.toList.reverse.takeWhile (· = c)).length, String.ext ?_⟩
  have ht : y.toList.reverse.takeWhile (· = c) = List.replicate (y.toList.reverse.takeWhile (· = c)).length c :=
    List.eq_replicate_iff.mpr ⟨rfl, fun x hx => by simpa using List.mem_takeWhile_imp hx⟩
  have hy := congrArg List.reverse (List.takeWhile_append_dropWhile (· = c) y.toList.reverse)
  rw [List.reverse_reverse, List.reverse_append, ht, List.reverse_replicate] at hy
  simpa [rstrip, String.toList] using hy.symm

theorem normpath_rstrip {y : String} (h : ∃ c ∈ y.toList, c ≠ '/') : normpath (rstrip y '/') = normpath y := by
  obtain ⟨n, hn⟩ := rstrip_append_replicate y '/'
  obtain ⟨c, hc, hc'⟩ := h
  have hc2 : c ∈ (rstrip y '/').toList := by
    rw [hn] at hc
    simp only [String.toList, String.data_append, List.mem_append, List.mem_replicate] at hc
    exact hc.resolve_right fun h => hc' h.2
  conv_rhs => rw [hn]
  rw [normpath_append_slashes ⟨c, hc2, hc'⟩]

/-- `normpath(dirname(Q + '/'))` is `normpath(Q + '/')`. -/
theorem normpath_dirname_slash (Q : String) : normpath (dirname (Q ++ "/")) = normpath (Q ++ "/") := by
  rw [dirname_append_slash]
  split_ifs with hall
  · rfl
  · obtain ⟨c, hc, hc'⟩ : ∃ c ∈ Q.toList, c ≠ '/' := by simpa using hall
    exact normpath_rstrip ⟨c, by simp [String.toList] at hc ⊢; exact .inl hc, hc'⟩

/-- The directory of `R ++ J ++ '/' ++ b` for components whose last one is a name. -/
theorem dirname_components (R : String) {S : List String} (hS : ∀ e ∈ S, e ≠ "" ∧ '/' ∉ e.toList) (hne : S ≠ [])
    {b : String} (hb : '/' ∉ b.toList) :
    dirname (R ++ joinWith "/" (S.reverse ++ [b])) = R ++ joinWith "/" S.reverse := by
  obtain ⟨e, S', rfl⟩ := List.exists_cons_of_ne_nil hne
  have he := hS e (List.mem_cons_self _ _)
  have hor : ∀ l : List Char, (l ++ e.toList).getLast? = e.toList.getLast? := fun l => by
    rw [List.getLast?_append]
    cases h : e.toList.getLast? with
    | none => exact absurd (List.getLast?_eq_none_iff.mp h) fun h => he.1 (String.ext h)
    | some _ => rfl
  have hlast : (R ++ joinWith "/" (e :: S').reverse).toList.getLast? = e.toList.getLast? := by
    rw [List.reverse_cons, joinWith_append_singleton]
    split_ifs
    · exact hor R.toList
    · rw [← String.append_assoc, ← String.append_assoc]
      exact hor (R ++ joinWith "/" S'.reverse ++ "/").toList
  rw [joinWith_append_singleton, if_neg (by simp), ← String.append_assoc, ← String.append_assoc,
    dirname_append_of_not_mem _ hb, dirname_append_slash, if_neg, rstrip_append_slash]
  · rw [hlast]; exact fun h => he.2 (List.mem_of_getLast?_eq_some h)
  · intro hall
    obtain ⟨c, hc⟩ : ∃ c, (R ++ joinWith "/" (e :: S').reverse).toList.getLast? = some c :=
      Option.ne_none_iff_exists'.mp (by rw [hlast]; exact fun h => he.1 (String.ext (List.getLast?_eq_none_iff.mp h)))
    have hcR := List.mem_of_getLast?_eq_some hc
    rw [hlast] at hc
    have hslash : c = '/' := by
      simpa using List.all_eq_true.mp hall c
        (by simp only [String.toList, String.data_append] at hcR ⊢; exact List.mem_append_left _ hcR)
    exact he.2 (hslash ▸ List.mem_of_getLast?_eq_some hc)

theorem dirname_replicate {k : Nat} (hk : 0 < k) : dirname (String.mk (List.replicate k '/')) = String.mk (List.replicate k '/') := by
  obtain ⟨k, rfl⟩ := Nat.exists_eq_add_of_lt hk
  have e : String.mk (List.replicate (0 + k + 1) '/') = String.mk (List.replicate k '/') ++ "/" := by
    simp [String.ext_iff, List.replicate_succ', show "/" = String.singleton '/' from rfl]
  rw [e, dirname_append_slash, if_pos]
  simp [String.toList, show "/" = String.singleton '/' from rfl, List.all_eq_true]

/-- `x` names a file: its last component is a name, not empty, `.` or `..`. -/
def namesFile (x : String) : Prop :=
  ∃ a b : String, x = a ++ "/" ++ b ∧ b ≠ "" ∧ b ≠ "." ∧ b ≠ ".." ∧ '/' ∉ b.toList

/-- For an absolute path that names a file, normalising its directory is taking the
    directory of the normalised path. -/
theorem normpath_dirname {x : String} (hx : startswith x "/" = true) (hf : namesFile x) :
    normpath (dirname x) = dirname (normpath x) := by
  obtain ⟨a, b, rfl, hb0, hb1, hb2, hb⟩ := hf
  have hhead : b.toList.head? ≠ some '/' := fun h => hb (List.mem_of_mem_head? h)
  have hpos : 0 < initialSlashes (a ++ "/") :=
    initialSlashes_pos (by rwa [← startswith_append_slashes (by decide) (.inl hhead)])
  have hslash : '/' ∈ (a ++ "/").toList := by simp [String.toList, show "/" = String.singleton '/' from rfl]
  have hL : normpath (dirname (a ++ "/" ++ b)) = normTail (initialSlashes (a ++ "/")) (split a '/') := by
    rw [dirname_append_of_not_mem _ hb, normpath_dirname_slash, normpath_eq, if_neg (ne_empty_of_mem hslash),
      split_append_slash, normTail_append_empty]
  have hR : normpath (a ++ "/" ++ b) = normTail (initialSlashes (a ++ "/")) (split a '/' ++ [b]) := by
    rw [normpath_eq, if_neg (ne_empty_of_mem (c := '/') (by simp [String.toList] at hslash ⊢)),
      initialSlashes_append (.inl hhead), split_append_sep, split_of_not_mem hb]
  have hS := foldl_normStep_pieces (k := initialSlashes (a ++ "/")) (S := []) (fun _ h => nomatch h) (split_pieces a)
  rw [hL, hR, normTail_of_pos hpos, normTail_of_pos hpos, List.foldl_append, List.foldl_cons, List.foldl_nil,
    normStep_name ⟨hb0, hb1, hb2⟩, List.reverse_cons]
  generalize (split a '/').foldl (normStep (initialSlashes (a ++ "/"))) [] = S at hS ⊢
  by_cases hne : S = []
  · -- nothing is left of the directory but the initial slashes
    subst hne
    rw [List.reverse_nil, List.nil_append, joinWith, joinWith, String.append_empty, dirname_append_of_not_mem _ hb,
      dirname_replicate hpos]
  · exact (dirname_components _ hS hne hb).symm

end Slivka.Python
