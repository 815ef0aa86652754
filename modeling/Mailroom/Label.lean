import Mailroom.Text

/-!
# Labels and their folders

Six labels belong to the mail system.  A rule names them with a backslash (`\Trash`), the maildir
keeps them as folders and keywords of another name (`gmail.Trash`).  Every other label has one
name for both.

* `resolveFolder` and `resolveLabel` lead from either spelling to the folder form and to the
  label form.
-/

namespace Mailroom

/-- A label of a message. -/
inductive Label where
  /-- The inbox. -/
  | inbox
  /-- Deleted messages. -/
  | trash
  /-- The priority marker. -/
  | important
  /-- Sent messages. -/
  | sent
  /-- Starred messages. -/
  | starred
  /-- Drafts. -/
  | draft
  /-- A label of the user's own. -/
  | keyword (name : Text)
  deriving DecidableEq, Repr

namespace Label

/-- The labels of the mail system. -/
def system : List Label := [inbox, trash, important, sent, starred, draft]

/-- The name used in rules. -/
def labelForm : Label → Text
  | inbox => "\\Inbox"
  | trash => "\\Trash"
  | important => "\\Important"
  | sent => "\\Sent"
  | starred => "\\Starred"
  | draft => "\\Draft"
  | keyword name => name

/-- The name used for folders and in the `Keywords` field. -/
def folderForm : Label → Text
  | inbox => "INBOX"
  | trash => "gmail.Trash"
  | important => "gmail.Important"
  | sent => "gmail.Sent_Mail"
  | starred => "gmail.Starred"
  | draft => "gmail.Drafts"
  | keyword name => name

/-- The label whose label form is `t`. -/
def ofLabelForm (t : Text) : Label :=
  (system.find? (fun l => l.labelForm == t)).getD (keyword t)

/-- The label whose folder form is `t`. -/
def ofFolderForm (t : Text) : Label :=
  (system.find? (fun l => l.folderForm == t)).getD (keyword t)

end Label

/-- The folder form of a name in either form. -/
def resolveFolder (t : Text) : Text := (Label.ofLabelForm t).folderForm

/-- The label form of a name in either form. -/
def resolveLabel (t : Text) : Text := (Label.ofFolderForm t).labelForm

end Mailroom
