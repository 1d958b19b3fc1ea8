import RoomAudio.Main
import RoomAudio.Player.Script
import RoomAudio.Proofs.Player.Transcript
import RoomAudio.Proofs.Player.Ending
import RoomAudio.Proofs.Player.FirstFailure
import RoomAudio.Proofs.Routine.Preparation
import RoomAudio.Proofs.Routine.Parameters
import RoomAudio.Proofs.Player.Commands
import RoomAudio.Proofs.Json.Number
import RoomAudio.Proofs.Json.Quoted
import RoomAudio.Proofs.Json.RoundTrip
import RoomAudio.Proofs.Text.Utf8
import RoomAudio.Proofs.Json.Records
import RoomAudio.Proofs.Settings.RoundTrip
import RoomAudio.Proofs.Files
import RoomAudio.Proofs.Settings.Persistence
import RoomAudio.Proofs.Settings.Requests
import RoomAudio.Proofs.Format
import RoomAudio.Proofs.Player.Cancellation
import RoomAudio.Proofs.Routine.Record
import RoomAudio.Proofs.Routine.Source
import RoomAudio.Proofs.Yaml.Cursor
import RoomAudio.Proofs.Yaml.Plain
import RoomAudio.Proofs.Yaml.Quoted
import RoomAudio.Proofs.Yaml.Literal
import RoomAudio.Proofs.Yaml.Scanner
import RoomAudio.Proofs.Yaml.Style
import RoomAudio.Proofs.Yaml.Scalar
import RoomAudio.Proofs.Yaml.Ending
import RoomAudio.Proofs.Yaml.Written
import RoomAudio.Proofs.Yaml.Block
import RoomAudio.Proofs.Yaml.Tokens
import RoomAudio.Proofs.Yaml.Events
import RoomAudio.Proofs.Yaml.Nodes
import RoomAudio.Proofs.Routine.Yaml
import RoomAudio.Proofs.Player.AppleScript
import RoomAudio.Proofs.Player.Mapped
import RoomAudio.Proofs.Routine.Layers
import RoomAudio.Proofs.Cli.ExitStatus
import RoomAudio.Proofs.Player.Direct
import RoomAudio.Proofs.Duration.Grammar
import RoomAudio.Proofs.Binary64
import RoomAudio.Proofs.Duration.Exact
import RoomAudio.Proofs.Routine.FirstViolation
import RoomAudio.Proofs.Search.Subsequence
import RoomAudio.Proofs.Search.Beginning
import RoomAudio.Proofs.Search.ExactName
import RoomAudio.Proofs.Routine.StateNames
import RoomAudio.Proofs.Search.OwnCharacters
import RoomAudio.Proofs.Shortcuts.Spelling
import RoomAudio.Proofs.Player.Waiting
import RoomAudio.Proofs.Settings.History
import RoomAudio.Proofs.Text.Pieces
import RoomAudio.Proofs.Settings.Canonical
import RoomAudio.Proofs.Settings.Opening
import RoomAudio.Proofs.Settings.Members
import RoomAudio.Proofs.Player.Listing
import RoomAudio.Proofs.Routine.Report
import RoomAudio.Proofs.Yaml.Margin.Basic
import RoomAudio.Proofs.Yaml.Margin.Property
import RoomAudio.Proofs.Yaml.Margin.Quoted
import RoomAudio.Proofs.Yaml.Margin.Plain
import RoomAudio.Proofs.Yaml.Margin.Block
import RoomAudio.Proofs.Yaml.Margin.Scanner
import RoomAudio.Proofs.Yaml.Margin.Step
import RoomAudio.Proofs.Yaml.Margin.Run
import RoomAudio.Proofs.Yaml.Margin.Front
import RoomAudio.Proofs.Yaml.Progress
import RoomAudio.Proofs.Yaml.Indentation.Readers
import RoomAudio.Proofs.Yaml.Indentation.Scanner
import RoomAudio.Proofs.Yaml.Indentation.Step
import RoomAudio.Proofs.Yaml.Complete
import RoomAudio.Proofs.Yaml.Entries
import RoomAudio.Proofs.Yaml.BareList
import RoomAudio.Proofs.Yaml.Indentation.Phase
import RoomAudio.Proofs.Yaml.Indentation.Move
import RoomAudio.Proofs.Yaml.Indentation.Run
import RoomAudio.Proofs.Routine.Trimming
import RoomAudio.Proofs.Files.Home
import RoomAudio.Proofs.Duration.Limit
