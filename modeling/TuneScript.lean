import TuneScript.Engine.Evaluation
import TuneScript.Engine.Execution
import TuneScript.Engine.Playing
import TuneScript.Engine.Session
import TuneScript.Engine.State
import TuneScript.Engine.Table
import TuneScript.Failure
import TuneScript.Grammar.Follow
import TuneScript.Grammar.Lexeme
import TuneScript.Grammar.Machine
import TuneScript.Grammar.Operands
import TuneScript.Grammar.Reader
import TuneScript.Grammar.Rejection
import TuneScript.Grammar.Scan
import TuneScript.Main
import TuneScript.Number.Binary
import TuneScript.Number.Reading
import TuneScript.Number.Shortest
import TuneScript.Program.Encoding
import TuneScript.Program.Node
import TuneScript.Program.Rule
import TuneScript.Program.Tree
import TuneScript.Proofs.Expressions
import TuneScript.Proofs.Spelling
import TuneScript.Proofs.Statements
import TuneScript.Shell.Checks
import TuneScript.Shell.Console
import TuneScript.Shell.Demos
import TuneScript.Shell.Dialogue
import TuneScript.Shell.Folder
import TuneScript.Shell.Guide
import TuneScript.Shell.Launch
import TuneScript.Shell.Options
import TuneScript.Shell.Outline
import TuneScript.Shell.Playback
import TuneScript.Shell.SelfTest
import TuneScript.Shell.Usage
import TuneScript.Signal.Effect
import TuneScript.Signal.Envelope
import TuneScript.Signal.Filter
import TuneScript.Signal.Operand
import TuneScript.Signal.Slice
import TuneScript.Signal.Wave
import TuneScript.Synth.Pitch
import TuneScript.Synth.Presets
import TuneScript.Synth.Synthesizer
import TuneScript.Synth.Waveform
import TuneScript.Text.Blank
import TuneScript.Text.Digit
import TuneScript.Text.Printable
import TuneScript.Text.Quoted
import TuneScript.Text.Utf8
import TuneScript.Value.Access
import TuneScript.Value.Arithmetic
import TuneScript.Value.Basic
import TuneScript.Value.Number
import TuneScript.Value.Order
import TuneScript.Value.Printer
import TuneScript.Voice.Basic
import TuneScript.Voice.Player
import TuneScript.Voice.Wave
import TuneScript.Proofs.Readings
import TuneScript.Proofs.Lookouts
import TuneScript.Proofs.Scanning
import TuneScript.Proofs.Spacing
import TuneScript.Proofs.Printing
import TuneScript.Proofs.Derivations
import TuneScript.Proofs.Performances
import TuneScript.Proofs.Programs
import TuneScript.Proofs.Branches
import TuneScript.Proofs.Deeds
import TuneScript.Proofs.Tables
import TuneScript.Proofs.Settings
import TuneScript.Proofs.Histories
import TuneScript.Proofs.Evaluations
import TuneScript.Proofs.Twins
import TuneScript.Proofs.Agreement
import TuneScript.Proofs.Failures
import TuneScript.Proofs.Palettes
import TuneScript.Proofs.Dialects
import TuneScript.Proofs.Shapes
import TuneScript.Proofs.Completions
import TuneScript.Proofs.Prefixes
import TuneScript.Proofs.Depths
import TuneScript.Proofs.Ranks
import TuneScript.Proofs.Circles
import TuneScript.Proofs.Frames
import TuneScript.Proofs.Calls
import TuneScript.Proofs.Layouts
import TuneScript.Proofs.Loops
import TuneScript.Proofs.Conditions
import TuneScript.Proofs.Rounding
import TuneScript.Proofs.Overlays
import TuneScript.Proofs.Curves
import TuneScript.Proofs.Envelopes
import TuneScript.Proofs.Tones
import TuneScript.Proofs.Parts
import TuneScript.Proofs.Channels
import TuneScript.Proofs.Chords
import TuneScript.Proofs.Voices
import TuneScript.Proofs.Dialogues
import TuneScript.Proofs.Respelling
import TuneScript.Proofs.Rewording
import TuneScript.Proofs.Duets
import TuneScript.Proofs.Singing
import TuneScript.Proofs.Echoes
import TuneScript.Proofs.Letters
import TuneScript.Proofs.Smoothing
import TuneScript.Proofs.Junctions
