/-
Questions about files: which are known, which match a fragment, what they depend on, directly and
transitively, and which entities they mention. Lists of files are in the order of path texts.
-/
import CrossIndex.IdSet
import CrossIndex.Path.Normal
import CrossIndex.Store.Basic
import CrossIndex.Text.Blank

namespace CrossIndex.Store

/-- Files in the order of their path texts. -/
def byPath (fs : List SourceFile) : List SourceFile :=
  fs.mergeSort fun a b => (compare a.path b.path).isLE

/-- All known files. -/
def allFiles (s : Store) : List SourceFile :=
  byPath s.files

/-- The known file that a path names. -/
def fileNamed (canon : String → String) (s : Store) (path : String) : Option SourceFile :=
  s.fileAt? (canon path)

/-- The files that a file depends on directly. -/
def imports (s : Store) (file : Int) : List SourceFile :=
  byPath (s.files.filter fun f =>
    s.dependencies.any fun d => d.source == file && d.target == f.id)

/-- The files that depend on a file directly. -/
def importedBy (s : Store) (file : Int) : List SourceFile :=
  byPath (s.files.filter fun f =>
    s.dependencies.any fun d => d.target == file && d.source == f.id)

/-- The targets of dependencies whose source is in a set. -/
def dependencyTargets (s : Store) (sources : List Int) : List Int :=
  (s.dependencies.filter fun d => sources.contains d.source).map DependencyRow.target

/-- Adds the targets of a set's dependencies to it until nothing is new. Every round but the last
adds the target of some dependency, so as many rounds as there are dependencies are enough. -/
def dependencyClosure (s : Store) : Nat → List Int → List Int
  | 0, set => set
  | fuel + 1, set =>
    let grown := (s.dependencyTargets set).foldr IdSet.insert set
    if grown.length = set.length then set else s.dependencyClosure fuel grown

/-- The files that a file depends on over one or more steps, itself excepted. -/
def dependsOn (s : Store) (file : Int) : List SourceFile :=
  let direct := IdSet.ofList (s.dependencyTargets [file])
  let reached := s.dependencyClosure s.dependencies.length direct
  byPath (s.files.filter fun f => reached.contains f.id && f.id != file)

/-- Whether an entity passes a filter by name; without a name all do. -/
def hasName (name : Option String) (e : EntityRow) : Bool :=
  match name with
  | some n => e.name == n
  | none => true

/-- The entities that a file mentions or declares, by id, all of them or those with a name. -/
def referencedIn (s : Store) (file : Int) (name : Option String) : List Entity :=
  let mentioned := (s.references.filter fun r =>
    r.file == file && (s.entity? r.entity).any (hasName name)).map ReferenceRow.entity
  let declared := (s.entities.filter fun e =>
    e.decl.any (fun p => p.file == file) && hasName name e).map EntityRow.id
  (IdSet.ofList (mentioned ++ declared)).map Entity.ofId

/-- The end that the path of a matching file has: the fragment's normal form after a slash. -/
def fragmentEnd (normal : String) : List Char :=
  '/' :: normal.toList.dropWhile (· == '/')

/-- The characters of a text that are counted and cut: a null character ends them. -/
def untilNull (cs : List Char) : List Char :=
  cs.takeWhile (· != '\x00')

/-- Whether a path ends with a fragment's end and has more before it. As many characters as the end
has are cut off the path and compared with the end. -/
def hasEnd (path : String) (ending : List Char) : Bool :=
  let known := untilNull path.toList
  let length := (untilNull ending).length
  length < known.length && known.drop (known.length - length) == ending

/-- The files that a fragment names: the file it spells, or those whose path ends with it at a
component boundary. A blank fragment names none. -/
def filesMatching (canon : String → String) (s : Store) (fragment : String) : List SourceFile :=
  let fragment := Text.trim fragment
  if fragment.isEmpty then []
  else
    let canonical := canon fragment
    let normal := Path.normalize fragment
    byPath (s.files.filter fun f =>
      f.path == canonical || f.path == normal || hasEnd f.path (fragmentEnd normal))

end CrossIndex.Store
