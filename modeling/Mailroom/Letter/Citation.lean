import Mailroom.Letter.Markup
import Mailroom.Message

/-!
# The citation in a letter

A letter that passes a message on begins with what the message says about itself: its authors,
its date, its subject and its recipients.

* `Citation.asText` and `Citation.asPage` show a citation in a plain text and in a page.
* `insertIntoPage` puts it behind the tag that opens the body of a page, or in front of a page
  that has none.
-/

namespace Mailroom

/-- The end of a line in a letter. -/
def crlf : Text := "\r\n"

/-- What a message says about itself. -/
structure Citation where
  /-- Its authors. -/
  authors : List Mailbox
  /-- Its date, as it is written. -/
  date : Text
  /-- Its subject. -/
  subject : Text
  /-- Its recipients. -/
  recipients : List Mailbox
  /-- Those who got a copy. -/
  copies : List Mailbox

namespace Citation

/-- The heading of a citation. -/
def banner : Text := "---------- Forwarded message ---------"

/-- The mailboxes of a field, or none if they cannot be read. -/
def mailboxesOrNone (name : Text) : Reading (List Mailbox) := fun disk => do
  tryCatch (Message.mailboxes name disk) (fun _ => return [])

/-- What the message at hand says about itself. -/
def ofMessage : Reading Citation := do
  let authors ← mailboxesOrNone "From"
  let date := (← Message.field? "Date").getD []
  let subject ← Message.subject
  let recipients ← mailboxesOrNone "To"
  let copies ← mailboxesOrNone "Cc"
  return { authors, date, subject, recipients, copies }

/-- A citation in a plain text. -/
def asText (c : Citation) : Text :=
  let line (name value : Text) : Text := name ++ ": " ++ value ++ crlf
  banner ++ crlf ++
    line "From" (Mailbox.renderList c.authors) ++
    line "Date" c.date ++
    line "Subject" c.subject ++
    line "To" (Mailbox.renderList c.recipients) ++
    (if c.copies.isEmpty then [] else line "Cc" (Mailbox.renderList c.copies)) ++ crlf

/-- A mailbox in a page: the address is a link, behind the name in bold letters if there is a
name. -/
def mailboxInPage (m : Mailbox) : Text :=
  let link := "<a href=\"mailto:" ++ Markup.quoted m.email ++ "\">" ++ Markup.text m.email ++ "</a>"
  match m.name with
  | none | some [] => link
  | some name => "<strong>" ++ Markup.text name ++ "</strong> &lt;" ++ link ++ "&gt;"

/-- A list of mailboxes in a page. -/
def mailboxesInPage (ms : List Mailbox) : Text := Text.join ", " (ms.map mailboxInPage)

/-- A citation in a page. -/
def asPage (c : Citation) : Text :=
  let line (name value : Text) : Text := name ++ ": " ++ value ++ "<br>" ++ crlf
  "<div class=\"forwarded\">" ++ banner ++ "<br>" ++ crlf ++
    line "From" (mailboxesInPage c.authors) ++
    line "Date" (Markup.text c.date) ++
    line "Subject" (Markup.text c.subject) ++
    line "To" (mailboxesInPage c.recipients) ++
    (if c.copies.isEmpty then [] else line "Cc" (mailboxesInPage c.copies)) ++
    "</div><br>" ++ crlf

end Citation

/-- How many characters stand up to the end of the tag that opens the body of a page. -/
def bodyStart? (page : Text) : Option Nat := do
  let lower := Text.asciiLower page
  let start ← offsetOf? ("<body" : Text) lower
  let length ← offsetOf? [('>' : Char)] (lower.drop start)
  return start + length + 1

/-- Puts a block into a page. -/
def insertIntoPage (block page : Text) : Text :=
  let n := (bodyStart? page).getD 0
  page.take n ++ block ++ page.drop n

end Mailroom
