import Bindery.Entries
import Bindery.Path.Basic
import Bindery.Text.Case

/-!
# How files are rendered

Every file begins with a header that names it in a comment of its own language, found by the
extension of its name.

* `RenderOptions.commentMarker`, `RenderOptions.header`
-/

namespace Bindery

/-- The comment marks of file types by extension. -/
def defaultCommentMarks : Entries Text :=
  [ (".sh", "#"), (".bash", "#"), (".zsh", "#"), (".py", "#"), (".rb", "#"), (".pl", "#"),
    (".pm", "#"), (".yml", "#"), (".yaml", "#"), (".toml", "#"), (".conf", "#"), (".ini", "#"),
    (".cfg", "#"), (".sql", "--"), (".lua", "--"), ("default", "//") ].map
      fun m => (m.1.toList, m.2.toList)

/-- The content limit when none is set: one mebibyte. -/
def defaultMaxBytes : Int := 1024 * 1024

/-- How files are rendered. -/
structure RenderOptions where
  headerPrefix : Text := ['\n']
  headerSuffix : Text := ['\n']
  /-- No content of more bytes is made. -/
  maxBytes : Int := defaultMaxBytes
  /-- The comment marks by extension; the mark of all others is under `default`. -/
  commentMarks : Entries Text := defaultCommentMarks
  /-- Paths are shown relative to the nearest of these. -/
  roots : List Text := []

namespace RenderOptions

/-- The extensions of files whose comments are those of markup. -/
def markupExtensions : List Text :=
  [".html", ".xml", ".svg", ".jsx", ".tsx"].map String.toList

/-- The extensions of files whose comments are those of style sheets. -/
def stylesheetExtensions : List Text :=
  [".css", ".scss", ".less"].map String.toList

/-- The extension by which a file's type is known. -/
def typeOf (path : Text) : Text :=
  Text.lower (Path.extension path)

/-- The mark that begins a comment in a file. -/
def commentMarker (o : RenderOptions) (path : Text) : Text :=
  match o.commentMarks.get? (typeOf path) with
  | some mark => mark
  | none =>
    match o.commentMarks.get? "default".toList with
    | none | some [] => "//".toList
    | some mark => mark

/-- The header of a file that is shown under a path. -/
def header (o : RenderOptions) (path shown : Text) : Text :=
  let kind := typeOf path
  let name := "File: ".toList ++ shown
  let comment :=
    if markupExtensions.contains kind then "<!-- ".toList ++ name ++ " -->".toList
    else if stylesheetExtensions.contains kind then "/* ".toList ++ name ++ " */".toList
    else o.commentMarker path ++ ' ' :: name
  o.headerPrefix ++ comment ++ o.headerSuffix

end RenderOptions

end Bindery
