/-
  Slivka.Yaml.Loader — `SafeTranscludingOrderedYamlLoader`, `_include_constructor` and
  `_mapping_constructor` (slivka/utils.py): a safe YAML loader whose mappings load as
  `OrderedDict`s and whose `!include file#key/path` scalars load `file`, joined to the
  loader's `root_path`, with a loader of the same class, and index into it.

  PyYAML's parser and resolver are not modelled: a file holds its composed node tree, each
  node with its resolved tag. Construction is `SafeConstructor`'s `construct_object` with
  the two constructors the loader adds: a scalar of a tag `SafeConstructor` builds keeps its
  tag and text, a `!!seq` builds a list, a `!!map` `_mapping_constructor`'s `OrderedDict`, a
  `!!set` the set of its keys, a `!!omap` or `!!pairs` a list of key-value tuples, an
  `!include` scalar `_include_constructor`; any other tag, or a node of the wrong kind for
  its tag, raises `ConstructorError`.

  The interpreter's recursion limit is counted in nested `yaml.load` calls: `load` is given
  the number left. `loadFd` also counts the files the process may still open: each
  `with open(fn)` of `_include_constructor` holds its file while the nested load runs.
-/

import Slivka.Python

namespace Slivka.Yaml

open Slivka.Python

def includeTag : String := "!include"

def strTag : String := "tag:yaml.org,2002:str"

def seqTag : String := "tag:yaml.org,2002:seq"

/-- `BaseResolver.DEFAULT_MAPPING_TAG`, the tag `_mapping_constructor` is added for. -/
def mapTag : String := "tag:yaml.org,2002:map"

def setTag : String := "tag:yaml.org,2002:set"

def omapTag : String := "tag:yaml.org,2002:omap"

def pairsTag : String := "tag:yaml.org,2002:pairs"

/-- The scalar tags `SafeConstructor` has a constructor for. -/
def scalarTags : List String :=
  ["tag:yaml.org,2002:null", "tag:yaml.org,2002:bool", "tag:yaml.org,2002:int", "tag:yaml.org,2002:float",
    "tag:yaml.org,2002:binary", "tag:yaml.org,2002:timestamp", strTag]

/-- A composed YAML node. -/
inductive Node where
  | scalar (tag value : String)
  | sequence (tag : String) (items : List Node)
  | mapping (tag : String) (pairs : List (Node × Node))
  deriving Repr

/-- A constructed object: a scalar (a `str` when its tag is `strTag`), a list, an
    `OrderedDict` with its pairs in order, a `set` of its elements in document order, or a
    `(key, value)` tuple of an `!!omap` or `!!pairs`. -/
inductive Value where
  | scalar (tag value : String)
  | list (items : List Value)
  | dict (pairs : List (Value × Value))
  | set (items : List Value)
  | pair (key value : Value)
  deriving Repr

inductive LoadError where
  /-- `open(fn)` of a missing file. -/
  | fileNotFound (path : String)
  /-- `RecursionError`: the recursion limit. -/
  | recursion
  /-- `obj[key]` on a dictionary without `key`. -/
  | keyError (key : String)
  /-- `obj[key]` on a non-dictionary, or an unhashable key given to `OrderedDict`. -/
  | typeError
  /-- `ConstructorError`: a tag with no constructor, a node of the wrong kind for its tag,
      an `!!omap` item that is not a one-pair mapping, an unhashable `!!set` element. -/
  | constructorError
  /-- `OSError` (`EMFILE`): `open` with no file descriptor left. -/
  | tooManyOpenFiles
  deriving DecidableEq, Repr

/-- The file system: the document of every path `open` succeeds on. -/
def Files := String → Option Node

def openFile (fs : Files) (path : String) : Except LoadError Node :=
  match fs path with
  | some doc => .ok doc
  | none => .error (.fileNotFound path)

/-- Scalars and tuples of them hash; lists, dictionaries and sets do not. -/
def Value.hashable : Value → Bool
  | .scalar _ _ => true
  | .pair k v => k.hashable && v.hashable
  | _ => false

/-- `OrderedDict(pairs)`. -/
def orderedDict (pairs : List (Value × Value)) : Except LoadError Value :=
  if pairs.all (·.1.hashable) then .ok (.dict pairs) else .error .typeError

/-- `construct_yaml_set`: the keys of the mapping, which `construct_mapping` requires to
    hash. -/
def pySet (pairs : List (Value × Value)) : Except LoadError Value :=
  if pairs.all (·.1.hashable) then .ok (.set (pairs.map Prod.fst)) else .error .constructorError

mutual
/-- `construct_object`, with `incl` the loader's `_include_constructor`. -/
def construct (incl : String → Except LoadError Value) : Node → Except LoadError Value
  | .scalar tag value =>
    if tag = includeTag then incl value
    else if tag ∈ scalarTags then .ok (.scalar tag value)
    else .error .constructorError
  | .sequence tag items =>
    if tag = seqTag then .list <$> constructItems incl items
    else if tag = omapTag ∨ tag = pairsTag then .list <$> constructOmap incl items
    else .error .constructorError
  | .mapping tag pairs =>
    if tag = mapTag then constructPairs incl pairs >>= orderedDict
    else if tag = setTag then constructPairs incl pairs >>= pySet
    else .error .constructorError

def constructItems (incl : String → Except LoadError Value) : List Node → Except LoadError (List Value)
  | [] => .ok []
  | n :: ns => do
    let v ← construct incl n
    let vs ← constructItems incl ns
    pure (v :: vs)

/-- `loader.construct_pairs(node)`: each key, then its value. -/
def constructPairs (incl : String → Except LoadError Value) :
    List (Node × Node) → Except LoadError (List (Value × Value))
  | [] => .ok []
  | (k, v) :: ps => do
    let k' ← construct incl k
    let v' ← construct incl v
    let ps' ← constructPairs incl ps
    pure ((k', v') :: ps')

/-- `construct_yaml_omap` and `construct_yaml_pairs`: each item a mapping of one pair, built
    as the tuple `(key, value)`. -/
def constructOmap (incl : String → Except LoadError Value) : List Node → Except LoadError (List Value)
  | [] => .ok []
  | .mapping _ [(k, v)] :: ns => do
    let k' ← construct incl k
    let v' ← construct incl v
    let vs ← constructOmap incl ns
    pure (.pair k' v' :: vs)
  | _ :: _ => .error .constructorError
end

def Value.isStr (v : Value) (key : String) : Bool :=
  match v with
  | .scalar tag s => tag == strTag && s == key
  | _ => false

/-- `obj[key]` for a `str` key: in a dictionary, the value of its last pair with that key. -/
def getItem (obj : Value) (key : String) : Except LoadError Value :=
  match obj with
  | .dict pairs =>
    match pairs.reverse.find? (·.1.isStr key) with
    | some (_, v) => .ok v
    | none => .error (.keyError key)
  | _ => .error .typeError

/-- `for key in keys: obj = obj[key]`. -/
def navigate (obj : Value) : List String → Except LoadError Value
  | [] => .ok obj
  | key :: keys => getItem obj key >>= fun o => navigate o keys

/-- `fn, path` of an `!include` text: `val = text.split('#', 1)`, and `path = '/'` when
    there is no `#`. -/
def includeSplit (value : String) : String × String :=
  match split1 value '#' with
  | [fn, path] => (fn, path)
  | val => (val.headD value, "/")

/-- A loader's `root_path`: the absolute directory of its stream's `name`, or of `.` when
    the stream has none. -/
def loaderRoot (cwd : String) (name : Option String) : String :=
  abspath cwd (match name with
    | some n => dirname n
    | none => ".")

/-- `_include_constructor` of a loader rooted at `root`; `load` is the nested `yaml.load` of
    the opened file. -/
def includeConstructor (fs : Files) (load : String → Node → Except LoadError Value) (root value : String) :
    Except LoadError Value := do
  let fn := join root (includeSplit value).1
  let doc ← openFile fs fn
  let obj ← load fn doc
  navigate obj ((split (includeSplit value).2 '/').filter (· ≠ ""))

/-- `yaml.load(f, Loader=SafeTranscludingOrderedYamlLoader)` of the file `name`, opened and
    holding `doc`, with `depth` nested loads left before the recursion limit. -/
def load (fs : Files) (cwd : String) : Nat → String → Node → Except LoadError Value
  | 0, _, _ => .error .recursion
  | depth + 1, name, doc =>
    construct (includeConstructor fs (load fs cwd depth) (loaderRoot cwd (some name))) doc

/-- `yaml.load(open(path), Loader=SafeTranscludingOrderedYamlLoader)`. -/
def loadPath (fs : Files) (cwd : String) (depth : Nat) (path : String) : Except LoadError Value :=
  openFile fs path >>= load fs cwd depth path

/-! ## Open files

`_include_constructor` opens its file in a `with` block and loads it inside the block, so
every file on the chain of nested loads is open at once. -/

/-- `_include_constructor` when the process may open `fds` more files: with none left,
    `open(fn)` raises `EMFILE` before anything is read. -/
def includeConstructorFd (fs : Files) (fds : Nat) (load : String → Node → Except LoadError Value)
    (root value : String) : Except LoadError Value :=
  if fds = 0 then .error .tooManyOpenFiles else includeConstructor fs load root value

/-- `load` when the process may open `fds` more files: each nested load runs while its
    file is open. -/
def loadFd (fs : Files) (cwd : String) : Nat → Nat → String → Node → Except LoadError Value
  | _, 0, _, _ => .error .recursion
  | fds, depth + 1, name, doc =>
    construct (includeConstructorFd fs fds (loadFd fs cwd (fds - 1) depth) (loaderRoot cwd (some name))) doc

/-- `yaml.load(open(path), ...)` when the process may open `fds` more files. -/
def loadPathFd (fs : Files) (cwd : String) (fds depth : Nat) (path : String) : Except LoadError Value :=
  if fds = 0 then .error .tooManyOpenFiles else openFile fs path >>= loadFd fs cwd (fds - 1) depth path

end Slivka.Yaml
