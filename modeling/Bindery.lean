import Bindery.Command.Console
import Bindery.Command.Help
import Bindery.Command.Line
import Bindery.Command.Run
import Bindery.Command.Words
import Bindery.Diagnostic
import Bindery.Engine.Basic
import Bindery.Engine.Describe
import Bindery.Engine.Resolve
import Bindery.Entries
import Bindery.Fault
import Bindery.Files.Change
import Bindery.Files.Error
import Bindery.Files.Host
import Bindery.Files.Tree
import Bindery.Glob.Braces
import Bindery.Glob.Class
import Bindery.Glob.Name
import Bindery.Glob.Pattern
import Bindery.Ignore.Memory
import Bindery.Ignore.Rules
import Bindery.Ignore.Source
import Bindery.Json.Reader
import Bindery.Json.Value
import Bindery.Json.Writer
import Bindery.Main
import Bindery.Number.Binary64
import Bindery.Number.Shortest
import Bindery.Number.Whole
import Bindery.Path.Basic
import Bindery.Path.Parsed
import Bindery.Path.Trie
import Bindery.Profile.Basic
import Bindery.Profile.Inherit
import Bindery.Profile.LiveRegistry
import Bindery.Profile.Reader
import Bindery.Profile.Registry
import Bindery.Proofs.Command.AfterSelect
import Bindery.Proofs.Command.Forgetting
import Bindery.Proofs.Command.Limit
import Bindery.Proofs.Command.Quiet
import Bindery.Proofs.Command.Reading
import Bindery.Proofs.Command.Selecting
import Bindery.Proofs.Engine.Calls
import Bindery.Proofs.Engine.Consistency
import Bindery.Proofs.Engine.History
import Bindery.Proofs.Engine.Ignoring
import Bindery.Proofs.Engine.Loading
import Bindery.Proofs.Engine.Pruning
import Bindery.Proofs.Engine.Resolving
import Bindery.Proofs.Engine.Rooted
import Bindery.Proofs.Engine.Runs
import Bindery.Proofs.Engine.Selecting
import Bindery.Proofs.Engine.Undoing
import Bindery.Proofs.Entries
import Bindery.Proofs.Files.Apart
import Bindery.Proofs.Files.Leading
import Bindery.Proofs.Files.Named
import Bindery.Proofs.Files.Plain
import Bindery.Proofs.Files.Reached
import Bindery.Proofs.Files.Steady
import Bindery.Proofs.Files.Tree
import Bindery.Proofs.Files.Written
import Bindery.Proofs.Glob.Braces
import Bindery.Proofs.Glob.Compile
import Bindery.Proofs.Glob.Flaws
import Bindery.Proofs.Glob.Name
import Bindery.Proofs.Glob.Nested
import Bindery.Proofs.Glob.Reading
import Bindery.Proofs.Glob.Rounds
import Bindery.Proofs.Glob.Slashes
import Bindery.Proofs.Glob.Subtree
import Bindery.Proofs.Ignore.AnyDepth
import Bindery.Proofs.Ignore.Loads
import Bindery.Proofs.Ignore.Memory
import Bindery.Proofs.Ignore.Reading
import Bindery.Proofs.Ignore.Remembered
import Bindery.Proofs.Json.Strings
import Bindery.Proofs.Number.Whole
import Bindery.Proofs.Outcome
import Bindery.Proofs.Path.Components
import Bindery.Proofs.Path.LongestPrefix
import Bindery.Proofs.Path.Names
import Bindery.Proofs.Path.Parsed
import Bindery.Proofs.Path.Resolved
import Bindery.Proofs.Path.Trie
import Bindery.Proofs.Profile.BraceGlob
import Bindery.Proofs.Profile.Cycle
import Bindery.Proofs.Profile.Declared
import Bindery.Proofs.Profile.Header
import Bindery.Proofs.Profile.Inherit
import Bindery.Proofs.Profile.Inline
import Bindery.Proofs.Profile.Isolation
import Bindery.Proofs.Profile.Joined
import Bindery.Proofs.Profile.Keyed
import Bindery.Proofs.Profile.Missing
import Bindery.Proofs.Profile.Reading
import Bindery.Proofs.Profile.Standing
import Bindery.Proofs.Profile.WellFormed
import Bindery.Proofs.Profile.Written
import Bindery.Proofs.Regex.Matches
import Bindery.Proofs.Regex.Reach
import Bindery.Proofs.Render.Content
import Bindery.Proofs.Render.Largest
import Bindery.Proofs.Render.Limited
import Bindery.Proofs.Render.Obstacles
import Bindery.Proofs.Render.Relative
import Bindery.Proofs.Roots.Followed
import Bindery.Proofs.Roots.NormalForm
import Bindery.Proofs.Running
import Bindery.Proofs.Search.AnyTree
import Bindery.Proofs.Search.Below
import Bindery.Proofs.Search.Excludes
import Bindery.Proofs.Search.Expand
import Bindery.Proofs.Search.Faults
import Bindery.Proofs.Search.Found
import Bindery.Proofs.Search.Ignored
import Bindery.Proofs.Search.Paths
import Bindery.Proofs.Search.Walk
import Bindery.Proofs.Search.Whole
import Bindery.Proofs.Selection.Kept
import Bindery.Proofs.Selection.Names
import Bindery.Proofs.Selection.Saved
import Bindery.Proofs.Selection.Stored
import Bindery.Proofs.Settings.Sources
import Bindery.Proofs.Text.Ascii
import Bindery.Proofs.Text.Coding
import Bindery.Proofs.Text.Cut
import Bindery.Proofs.Text.Line
import Bindery.Proofs.Text.Replacing
import Bindery.Proofs.Text.Utf8
import Bindery.Proofs.Text.Words
import Bindery.Regex.Basic
import Bindery.Regex.Reader
import Bindery.Render.Options
import Bindery.Render.Output
import Bindery.Roots
import Bindery.Search.Matcher
import Bindery.Search.Paths
import Bindery.Selection.Basic
import Bindery.Selection.Store
import Bindery.Settings.Basic
import Bindery.Settings.Load
import Bindery.Settings.Value
import Bindery.Text.Basic
import Bindery.Text.Blank
import Bindery.Text.Case
import Bindery.Text.CaseTable
import Bindery.Text.Line
import Bindery.Text.Printable
import Bindery.Text.Quoted
import Bindery.Text.Utf8
