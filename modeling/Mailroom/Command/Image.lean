import Mailroom.Coding.Base64
import Mailroom.Command
import Mailroom.Text.Number

/-!
# A situation as lines of text

A command can be tried on a situation that is written down in lines.  The first word of a line
says what the rest gives:

* `now` gives the present time, `home` the home folder, `place` the folder that relative paths
  begin at, and `set` a variable and its value with an equals sign between them;
* `folder` gives the path of a folder, and `file` the time of the last change, the content in
  base 64 and the path of a file.
-/

namespace Mailroom

namespace Image

/-- A situation of which nothing is known yet.  The mail server cannot be reached in it. -/
def blank (boundaries : List Text) : Situation where
  disk := .empty 0
  place := []
  home := "/"
  environment := .empty
  now := 0
  deliver s := s.unreachable "no network"
  boundaries := boundaries

/-- The greatest time that can be written down. -/
def greatestTime : Nat := 0x7FFFFFFFFFFFFFFF

/-- A situation with what one line gives; `none` if the line gives nothing. -/
def addLine (s : Situation) (line : Text) : Option Situation := do
  let (key, rest) ← Text.cut ' ' line
  if key = ("now" : Text) then
    let now ← readInt? greatestTime rest
    return { s with now := now, disk := { s.disk with clock := now } }
  else if key = ("home" : Text) then return { s with home := rest }
  else if key = ("place" : Text) then return { s with place := Path.names rest }
  else if key = ("set" : Text) then
    let (name, value) ← Text.cut '=' rest
    return { s with environment := s.environment.insert name value }
  else if key = ("folder" : Text) then
    return { s with disk := s.disk.plant (Path.names rest) (.folder []) }
  else if key = ("file" : Text) then
    let (time, rest) ← Text.cut ' ' rest
    let (content, path) ← Text.cut ' ' rest
    let modified ← readInt? greatestTime time
    let bytes ← Base64.decode? (Utf8.encode content)
    return { s with disk := s.disk.plant (Path.names path) (.file bytes (some modified)) }
  else none

/-- The situation that some lines give. -/
def parse (boundaries : List Text) (lines : List Text) : Option Situation :=
  lines.foldlM addLine (blank boundaries)

/-- A number as text, with a sign if it is less than zero. -/
def signed (n : Int) : Text := if n < 0 then '-' :: Text.ofNat n.natAbs else Text.ofNat n.natAbs

/-- The line for what is at a path. -/
def line (p : Path) : Item → Text
  | .folder => "folder " ++ Path.render p
  | .file f =>
    "file " ++ signed f.modified ++ " " ++ Base64.encode f.content ++ " " ++ Path.render p

/-- The lines for a disk, in increasing order of the paths. -/
def lines (d : Disk) : List Text :=
  (d.items.mergeSort (fun a b => Text.le (Path.render a.1) (Path.render b.1))).map
    (fun e => line e.1 e.2)

end Image

end Mailroom
