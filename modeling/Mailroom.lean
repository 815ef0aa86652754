import Mailroom.Clerk
import Mailroom.Coding.Base64
import Mailroom.Coding.Charset
import Mailroom.Coding.QuotedPrintable
import Mailroom.Command
import Mailroom.Command.Arguments
import Mailroom.Command.Datum
import Mailroom.Command.Image
import Mailroom.Date
import Mailroom.Decimal.Shortest
import Mailroom.Disk
import Mailroom.Error
import Mailroom.Forwarder
import Mailroom.Header.Block
import Mailroom.Header.EncodedWord
import Mailroom.Header.Field
import Mailroom.Header.Revision
import Mailroom.Keywords
import Mailroom.Label
import Mailroom.Letter.Boundary
import Mailroom.Letter.Citation
import Mailroom.Letter.Copy
import Mailroom.Letter.Markup
import Mailroom.Mailbox
import Mailroom.Maildir
import Mailroom.Main
import Mailroom.Message
import Mailroom.Mime.Parameter
import Mailroom.Mime.Part
import Mailroom.Office
import Mailroom.Pass
import Mailroom.Proofs.Alongside
import Mailroom.Proofs.Clerk
import Mailroom.Proofs.Clerk.Anywhere
import Mailroom.Proofs.Clerk.Beside
import Mailroom.Proofs.Clerk.Companion
import Mailroom.Proofs.Clerk.Foretelling
import Mailroom.Proofs.Clerk.Recognition
import Mailroom.Proofs.Clerk.Recording
import Mailroom.Proofs.Coding.Base64
import Mailroom.Proofs.Disk.Changes
import Mailroom.Proofs.Disk.Planting
import Mailroom.Proofs.Disk.Removal
import Mailroom.Proofs.Disk.Resolution
import Mailroom.Proofs.Disk.Sound
import Mailroom.Proofs.Disk.View
import Mailroom.Proofs.Forwarding
import Mailroom.Proofs.Forwarding.Remainder
import Mailroom.Proofs.Header.Groups
import Mailroom.Proofs.Header.Lists
import Mailroom.Proofs.Header.Names
import Mailroom.Proofs.Header.Owning
import Mailroom.Proofs.Header.ReadBack
import Mailroom.Proofs.Header.Rewriting
import Mailroom.Proofs.Header.Written
import Mailroom.Proofs.Keywords
import Mailroom.Proofs.Keywords.Canonical
import Mailroom.Proofs.Keywords.Spelling
import Mailroom.Proofs.Letter.Flat
import Mailroom.Proofs.Letter.Heading
import Mailroom.Proofs.Letter.Lines
import Mailroom.Proofs.Letter.Page
import Mailroom.Proofs.Mailbox.ReadBack
import Mailroom.Proofs.Mailbox.Reading
import Mailroom.Proofs.Maildir.Chart
import Mailroom.Proofs.Maildir.Drafting
import Mailroom.Proofs.Maildir.Enumeration
import Mailroom.Proofs.Maildir.Listing
import Mailroom.Proofs.Maildir.Matching
import Mailroom.Proofs.Maildir.Moving
import Mailroom.Proofs.Maildir.Removing
import Mailroom.Proofs.Maildir.Replacing
import Mailroom.Proofs.Maildir.Slot
import Mailroom.Proofs.Message.Agreement
import Mailroom.Proofs.Message.Blind
import Mailroom.Proofs.Message.Carried
import Mailroom.Proofs.Message.Editing
import Mailroom.Proofs.Message.Placing
import Mailroom.Proofs.Message.Plain
import Mailroom.Proofs.Message.Relabeling
import Mailroom.Proofs.Message.Remembering
import Mailroom.Proofs.Message.Resembling
import Mailroom.Proofs.Message.Retesting
import Mailroom.Proofs.Message.Roaming
import Mailroom.Proofs.Message.RoundTrip
import Mailroom.Proofs.Message.Saving
import Mailroom.Proofs.Message.Sight
import Mailroom.Proofs.Message.Standing
import Mailroom.Proofs.Message.Staying
import Mailroom.Proofs.Message.UpToDate
import Mailroom.Proofs.Pass.Again
import Mailroom.Proofs.Pass.Comparing
import Mailroom.Proofs.Pass.Conservation
import Mailroom.Proofs.Pass.Coverage
import Mailroom.Proofs.Pass.Following
import Mailroom.Proofs.Pass.Foretelling
import Mailroom.Proofs.Pass.Handling
import Mailroom.Proofs.Pass.Inert
import Mailroom.Proofs.Pass.Labeling
import Mailroom.Proofs.Pass.Once
import Mailroom.Proofs.Pass.Persisting
import Mailroom.Proofs.Pass.Reordering
import Mailroom.Proofs.Pass.Retrying
import Mailroom.Proofs.Pass.Run
import Mailroom.Proofs.Pass.Separate
import Mailroom.Proofs.Pass.Sparing
import Mailroom.Proofs.Pass.Turns
import Mailroom.Proofs.Rule
import Mailroom.Proofs.Rule.Age
import Mailroom.Proofs.Rule.Assembly
import Mailroom.Proofs.Rule.Naming
import Mailroom.Proofs.Rule.Trashing
import Mailroom.Proofs.Rulebook
import Mailroom.Proofs.Rulebook.Grouping
import Mailroom.Proofs.Rulebook.Scope
import Mailroom.Proofs.Summary
import Mailroom.Proofs.Text.Lower
import Mailroom.Proofs.Text.Pieces
import Mailroom.Proofs.Text.Trim
import Mailroom.Proofs.Text.Utf8
import Mailroom.Proofs.Trial
import Mailroom.Proofs.Vacuum.Accounting
import Mailroom.Proofs.Vacuum.Aside
import Mailroom.Proofs.Vacuum.Conservation
import Mailroom.Proofs.Vacuum.Draining
import Mailroom.Proofs.Vacuum.Homing
import Mailroom.Proofs.Vacuum.Leaving
import Mailroom.Proofs.Vacuum.Rehoming
import Mailroom.Proofs.Vacuum.Relabeling
import Mailroom.Proofs.Vacuum.Routing
import Mailroom.Proofs.Vacuum.Settling
import Mailroom.Proofs.Vacuum.Shares
import Mailroom.Proofs.Vacuum.Swept
import Mailroom.Proofs.Vacuum.Tidying
import Mailroom.Proofs.Verdict
import Mailroom.Proofs.Verdict.Meaning
import Mailroom.Proofs.Work
import Mailroom.Rule
import Mailroom.Rule.Decode
import Mailroom.Rule.Source
import Mailroom.Rulebook
import Mailroom.Settings
import Mailroom.Settings.EnvFile
import Mailroom.Summary
import Mailroom.Text
import Mailroom.Text.Blank
import Mailroom.Text.LowerCase
import Mailroom.Text.Number
import Mailroom.Text.Quoted
import Mailroom.Text.Sorted
import Mailroom.Text.Utf8
import Mailroom.Vacuum
import Mailroom.Verdict
import Mailroom.Yaml.Cursor
import Mailroom.Yaml.Node
import Mailroom.Yaml.Scalar
import Mailroom.Yaml.Token
import Mailroom.Yaml.Value
