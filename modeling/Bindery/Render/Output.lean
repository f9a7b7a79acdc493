import Bindery.Diagnostic
import Bindery.Files.Host
import Bindery.Path.Trie
import Bindery.Render.Options

/-!
# Rendering files into one text

The files are joined in the order asked for, each with its header before it and two line feeds
after it.  A file that cannot be read is reported and left out.  Where the next file would make
more bytes than allowed, a manifest takes the place of the whole content: it lists every file that
was asked for with its size.

* `Renderer.render`, `Renderer.manifest`
* `Renderer.chunk?` is what one file contributes; `Renderer.totalBytes` adds all of them up.
-/

namespace Bindery

/-- A file with its size in bytes. -/
structure FileSize where
  path : Text
  shown : Text
  size : Nat
  deriving DecidableEq, Repr

/-- What rendering gives. -/
structure RenderResult where
  content : Text
  truncated : Bool
  manifest : Option Text
  rendered : List Text
  totalBytes : Nat
  potentialBytes : Nat
  largest : Option FileSize
  diagnostics : List Diagnostic
  deriving DecidableEq, Repr

namespace RenderResult

/-- The result before any file. -/
def empty : RenderResult := ⟨[], false, none, [], 0, 0, none, []⟩

/-- Keeps the larger of the largest file so far and another; the first of equal ones. -/
def track (r : RenderResult) (f : FileSize) : RenderResult :=
  match r.largest with
  | none => { r with largest := some f }
  | some g => if g.size < f.size then { r with largest := some f } else r

/-- Adds a report. -/
def report (r : RenderResult) (d : Diagnostic) : RenderResult :=
  { r with diagnostics := r.diagnostics ++ [d] }

end RenderResult

/-- Renders files with given options. -/
structure Renderer where
  options : RenderOptions
  /-- The roots that paths are shown relative to. -/
  roots : Trie

namespace Renderer

/-- A renderer with given options. -/
def ofOptions (o : RenderOptions) : Except Fault Renderer :=
  (o.roots.foldlM Trie.insert .empty).map (⟨o, ·⟩)

/-- What follows the content of each file. -/
def separator : Text := ['\n', '\n']

/-- A path relative to a root, or the path itself without one. -/
def relativeToRoot (h : Host) (path : Text) (root : Option Text) : Except Fault Text :=
  match root with
  | none | some [] => .ok path
  | some root => h.relativeTo path root

/-- A path relative to the nearest root that holds it, or the path itself outside of all roots. -/
def relativePath (r : Renderer) (h : Host) (path : Text) : Except Fault Text :=
  match r.roots.longestPrefix? path with
  | .error e => .error e
  | .ok none => .ok path
  | .ok (some (.mark root)) => relativeToRoot h path (some root)
  | .ok (some (.branch [])) => .ok path
  | .ok (some (.branch _)) => if path.isEmpty then .ok path else .error .markAsBranch

/-! ## One file -/

/-- The report of a file that cannot be read. -/
def readFailure (path reason : Text) : Diagnostic where
  kind := .fileReadFailure
  message := "Error reading file ".toList ++ path ++ ": ".toList ++ reason
  path := some path
  profile := none

/-- The bytes of the regular file at a path, or why there are none. -/
def source (h : Host) (path : Text) : Except Fault (Except Text (List UInt8)) :=
  match h.node path with
  | .ok (.file bytes _) => .ok (.ok bytes)
  | .ok _ => .ok (.error ("not a regular file: ".toList ++ path))
  | .error (.file e) => .ok (.error (e.message path))
  | .error e => .error e

/-- What a file with given bytes contributes to the content. -/
def chunk (header : Text) (bytes : List UInt8) : Text :=
  header ++ Utf8.decodeReplacing bytes ++ separator

/-- A number of bytes that the chunk of a file has at least, known without decoding it. -/
def leastBytes (header : Text) (bytes : List UInt8) : Nat :=
  Utf8.byteLength header + bytes.length + separator.length

/-! ## Content -/

/-- Renders files one after the other; stops where there would be too many bytes. -/
def renderFrom (r : Renderer) (h : Host) : List Text → RenderResult → Except Fault RenderResult
  | [], result => .ok result
  | path :: rest, result =>
    match r.relativePath h path with
    | .error e => .error e
    | .ok shown =>
      match source h path with
      | .error e => .error e
      | .ok (.error reason) => r.renderFrom h rest (result.report (readFailure path reason))
      | .ok (.ok bytes) =>
        let header := r.options.header path shown
        if r.options.maxBytes < (result.totalBytes + leastBytes header bytes : Nat) then
          .ok { result with truncated := true }
        else
          let result := result.track ⟨path, shown, bytes.length⟩
          let text := chunk header bytes
          let size := Utf8.byteLength text
          if r.options.maxBytes < (result.totalBytes + size : Nat) then
            .ok { result with truncated := true }
          else
            r.renderFrom h rest
              { result with
                content := result.content ++ text
                totalBytes := result.totalBytes + size
                rendered := result.rendered ++ [path] }

/-! ## Manifest -/

/-- The line of a manifest for a file, and its size if it has one. -/
def manifestLine (r : Renderer) (h : Host) (path : Text) : Except Fault (Text × Option FileSize) :=
  match h.node path with
  | .error (.file e) =>
    .ok ("- ".toList ++ path ++ " (Error reading size: ".toList ++ e.wording ++ [')'], none)
  | .error e => .error e
  | .ok n =>
    (r.relativePath h path).map fun shown =>
      ("- ".toList ++ shown ++ " (".toList ++ Text.ofNat (Host.sizeOf n) ++ " bytes)".toList,
        some ⟨path, shown, Host.sizeOf n⟩)

/-- The number of bytes of all files with given sizes. -/
def totalSize (sizes : List FileSize) : Nat :=
  sizes.foldr (fun f n => f.size + n) 0

/-- The manifest of files, and the sizes that it lists. -/
def manifest (r : Renderer) (h : Host) (files : List Text) : Except Fault (Text × List FileSize) :=
  (files.mapM (r.manifestLine h)).map fun lines =>
    let sizes := lines.filterMap Prod.snd
    let heading :=
      [ "Maximum content size (".toList ++ Text.ofInt r.options.maxBytes ++
          " bytes) exceeded.".toList,
        [], "List of files that would have been included:".toList, [] ]
    (List.intercalate ['\n'] (heading ++ lines.map Prod.fst) ++
      "\n\nTotal potential size: ".toList ++ Text.ofNat (totalSize sizes) ++
      " bytes".toList, sizes)

/-- The report of too much content. -/
def sizeExceeded (maxBytes : Int) : Diagnostic where
  kind := .sizeLimitExceeded
  message := "Maximum content size (".toList ++ Text.ofInt maxBytes ++
    " bytes) exceeded. Generating file list instead.".toList
  path := none
  profile := none

/-- Renders files into one text, or into a manifest if there is too much content. -/
def render (r : Renderer) (h : Host) (files : List Text) : Except Fault RenderResult :=
  match r.renderFrom h files .empty with
  | .error e => .error e
  | .ok result =>
    if result.truncated then
      (r.manifest h files).map fun (text, sizes) =>
        let tracked := sizes.foldl RenderResult.track result
        { tracked.report (sizeExceeded r.options.maxBytes) with
          content := text
          manifest := some text
          rendered := []
          totalBytes := 0
          potentialBytes := totalSize sizes }
    else .ok result

/-- Renders files with given options. -/
def renderWith (options : RenderOptions) (h : Host) (files : List Text) :
    Except Fault RenderResult :=
  (ofOptions options).bind fun r => r.render h files

/-! ## The content as a whole -/

/-- What the file at a path contributes to the content, if it can be read. -/
def chunk? (r : Renderer) (h : Host) (path : Text) : Option Text :=
  match r.relativePath h path, source h path with
  | .ok shown, .ok (.ok bytes) => some (chunk (r.options.header path shown) bytes)
  | _, _ => none

/-- The number of bytes that all files together contribute. -/
def totalBytes (r : Renderer) (h : Host) (files : List Text) : Nat :=
  (files.filterMap (r.chunk? h)).foldr (fun text n => Utf8.byteLength text + n) 0

end Renderer

end Bindery
