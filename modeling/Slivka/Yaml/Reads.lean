/-
  Slivka.Yaml.Reads — which files `yaml.load` with `SafeTranscludingOrderedYamlLoader` reads.

  `_include_constructor` opens the file an `!include` names, joined to the including file's
  directory, and loads it with a loader of the same class; nothing else is opened. So the
  files a load of `p` can read are those an include chain from `p` reaches (`Reachable`).

  Proved:
  - `loadPath_reads_only_reachable`: two file systems that agree on every file reachable
    from `p` give the same load of `p`, document or error, under every recursion limit.
  - `loadPath_cwd_independent`: loading a file given by an absolute path gives the same
    result whatever the working directory.
  - `loadPath_fileNotFound_reachable`: a `FileNotFoundError` from loading `p` names a
    missing file that an include chain from `p` leads to.
-/

import Slivka.Yaml.Includes

namespace Slivka.Yaml

open Slivka.Python

/-- `_include_constructor` over nested loads: `yaml.load` of the included file, then the
    key path. -/
theorem includeConstructor_load (fs : Files) (cwd : String) (d : Nat) (root v : String) :
    includeConstructor fs (load fs cwd d) root v =
      loadPath fs cwd d (join root (includeSplit v).1) >>=
        fun obj => navigate obj ((split (includeSplit v).2 '/').filter (· ≠ "")) := by
  simp only [includeConstructor, loadPath, bind_assoc]

/-- Loading `p` reads no file that no include chain from `p` reaches: file systems that
    agree on the reachable files give the same result under every recursion limit. -/
theorem loadPath_reads_only_reachable {fs fs' : Files} {cwd : String} (d : Nat) :
    ∀ {p : String}, (∀ q, Reachable fs cwd p q → fs' q = fs q) → loadPath fs' cwd d p = loadPath fs cwd d p := by
  induction d with
  | zero => intro p h; simp only [loadPath, openFile, h p .refl]; rfl
  | succ d ih =>
    intro p h
    cases hp : fs p with
    | none => simp only [loadPath, openFile, h p .refl, hp]; rfl
    | some doc =>
      simp only [loadPath, openFile, h p .refl, hp]
      show construct _ doc = construct _ doc
      refine construct_congr fun v hv => ?_
      simp only [includeConstructor_load]
      rw [ih fun q hq => h q (.head ⟨doc, hp, v, hv, rfl⟩ hq)]

/-- `twoFiles` and a file `/c.yaml` that neither includes. -/
def threeFiles : Files := fun q => if q = "/c.yaml" then some (.scalar strTag "c") else twoFiles q

/-- Adding `/c.yaml` beside `/a.yaml` and `/b.yaml` leaves the load of `/a.yaml` as it was. -/
theorem unincluded_file_not_read : loadPath threeFiles "/" 3 "/a.yaml" = loadPath twoFiles "/" 3 "/a.yaml" :=
  loadPath_reads_only_reachable 3 fun q hq => if_neg (by
    rcases hq.cases_tail with rfl | ⟨_, -, hi⟩
    · decide
    · rw [(includes_of_twoFiles hi).2]; decide)

/-! ## The working directory -/

/-- A load of a file given by an absolute path does not depend on the working directory:
    every loader's `root_path` is then the absolute directory of its file, so every
    `!include` opens an absolute path. -/
theorem loadPath_cwd_independent {fs : Files} (cwd cwd' : String) (d : Nat) :
    ∀ {p : String}, startswith p "/" = true → loadPath fs cwd' d p = loadPath fs cwd d p := by
  induction d with
  | zero => intro p _; rfl
  | succ d ih =>
    intro p hp
    refine congrArg (openFile fs p >>= ·) (funext fun doc => ?_)
    show construct _ doc = construct _ doc
    rw [loaderRoot_abs hp, loaderRoot_abs hp]
    refine construct_congr fun v _ => ?_
    simp only [includeConstructor_load]
    rw [ih (join_abs (normpath_abs (dirname_abs hp)) _)]

/-- `/a.yaml` including `b.yaml` loads the same from `/srv` as from `/`. -/
theorem two_files_load_from_any_cwd : loadPath twoFiles "/srv" 2 "/a.yaml" = loadPath twoFiles "/" 2 "/a.yaml" :=
  loadPath_cwd_independent "/" "/srv" 2 (by decide)

/-! ## Where a missing file comes from -/

theorem openFile_fileNotFound {fs : Files} {cwd p q : String} (h : openFile fs p = .error (.fileNotFound q)) :
    Reachable fs cwd p q ∧ fs q = none := by
  unfold openFile at h
  split at h
  · cases h
  · cases h; exact ⟨.refl, ‹_›⟩

/-- A `FileNotFoundError` from loading `p` names a file that is missing and that an include
    chain from `p` leads to. -/
theorem loadPath_fileNotFound_reachable {fs : Files} {cwd q : String} (d : Nat) :
    ∀ {p : String}, loadPath fs cwd d p = .error (.fileNotFound q) → Reachable fs cwd p q ∧ fs q = none := by
  induction d with
  | zero =>
    intro p h
    rcases bind_eq_error h with h | ⟨doc, -, h⟩
    · exact openFile_fileNotFound h
    · cases h
  | succ d ih =>
    intro p h
    rcases bind_eq_error h with h | ⟨doc, hd, h⟩
    · exact openFile_fileNotFound h
    obtain ⟨v, hv, hi⟩ := construct_error_of_incl ⟨by simp, by simp⟩ doc h
    rw [includeConstructor_load] at hi
    rcases bind_eq_error hi with hi | ⟨obj, -, hi⟩
    · exact (ih hi).imp_left (.head ⟨doc, fs_of_openFile hd, v, hv, rfl⟩)
    · rcases navigate_error hi with ⟨_, hi⟩ | hi <;> cases hi

/-- `/a.yaml` is `!include b.yaml`, and there is no `/b.yaml`. -/
def missingInclude : Files := fun p => if p = "/a.yaml" then some (.scalar includeTag "b.yaml") else none

theorem missing_include_reported :
    loadPath missingInclude "/" 2 "/a.yaml" = .error (.fileNotFound "/b.yaml") ∧
      Reachable missingInclude "/" "/a.yaml" "/b.yaml" ∧ missingInclude "/b.yaml" = none :=
  ⟨rfl, loadPath_fileNotFound_reachable 2 (p := "/a.yaml") rfl⟩

end Slivka.Yaml
