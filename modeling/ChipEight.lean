import ChipEight.Bank
import ChipEight.CallStack
import ChipEight.CommandLine.Help
import ChipEight.CommandLine.KeySlot
import ChipEight.CommandLine.LogFilter
import ChipEight.CommandLine.Numeral
import ChipEight.CommandLine.Options
import ChipEight.CommandLine.Run
import ChipEight.Fault
import ChipEight.Glyph
import ChipEight.Host.Basic
import ChipEight.Host.Session
import ChipEight.Host.Tally
import ChipEight.Instruction.Basic
import ChipEight.Instruction.Decode
import ChipEight.Instruction.Mnemonic
import ChipEight.Journal
import ChipEight.Keypad
import ChipEight.Log
import ChipEight.Machine.Alu
import ChipEight.Machine.Basic
import ChipEight.Machine.Load
import ChipEight.Machine.Registers
import ChipEight.Machine.Snapshot
import ChipEight.Machine.Step
import ChipEight.Main
import ChipEight.Memory
import ChipEight.Nibble
import ChipEight.Pattern.Basic
import ChipEight.Pattern.Bracket
import ChipEight.Pattern.CharSet
import ChipEight.Pattern.Escape
import ChipEight.Pattern.Flags
import ChipEight.Pattern.Group
import ChipEight.Pattern.Reader
import ChipEight.Pattern.Search
import ChipEight.Pattern.Size
import ChipEight.Pattern.Slots
import ChipEight.Pattern.Words
import ChipEight.Random.ChaCha
import ChipEight.Random.Key
import ChipEight.Random.Stream
import ChipEight.Screen
import ChipEight.Text.Alphanumeric
import ChipEight.Text.Blank
import ChipEight.Text.Hex
import ChipEight.Text.Terminal
import ChipEight.Text.Utf8
import ChipEight.Trace
import ChipEight.Proofs.Checked.Agreement
import ChipEight.Proofs.Checked.Basic
import ChipEight.Proofs.Checked.Drawing
import ChipEight.Proofs.Checked.Framebuffer
import ChipEight.Proofs.Checked.Machine
import ChipEight.Proofs.CommandLine.Arguments
import ChipEight.Proofs.CommandLine.CountedSteps
import ChipEight.Proofs.CommandLine.Filters
import ChipEight.Proofs.CommandLine.KeySlots
import ChipEight.Proofs.CommandLine.Messages
import ChipEight.Proofs.CommandLine.Numerals
import ChipEight.Proofs.CommandLine.Reading
import ChipEight.Proofs.CommandLine.Requests
import ChipEight.Proofs.CommandLine.Spelling
import ChipEight.Proofs.CommandLine.Tracing
import ChipEight.Proofs.Host.Blits
import ChipEight.Proofs.Host.Calls
import ChipEight.Proofs.Host.Confinement
import ChipEight.Proofs.Host.Draws
import ChipEight.Proofs.Host.Faults
import ChipEight.Proofs.Host.Footprints
import ChipEight.Proofs.Host.Freshness
import ChipEight.Proofs.Host.Keys
import ChipEight.Proofs.Host.Loads
import ChipEight.Proofs.Host.Omission
import ChipEight.Proofs.Host.Pauses
import ChipEight.Proofs.Host.Reports
import ChipEight.Proofs.Host.Run
import ChipEight.Proofs.Host.Sprites
import ChipEight.Proofs.Host.Successors
import ChipEight.Proofs.Host.Tick
import ChipEight.Proofs.Host.Timers
import ChipEight.Proofs.Host.Tracing
import ChipEight.Proofs.Host.Waiting
import ChipEight.Proofs.Instruction.Assembly
import ChipEight.Proofs.Instruction.Decoding
import ChipEight.Proofs.Instruction.Encoding
import ChipEight.Proofs.Keypad.History
import ChipEight.Proofs.Machine.Aliasing
import ChipEight.Proofs.Machine.Arithmetic
import ChipEight.Proofs.Machine.Blocks
import ChipEight.Proofs.Machine.Counter
import ChipEight.Proofs.Machine.Digits
import ChipEight.Proofs.Machine.Effects
import ChipEight.Proofs.Machine.Footprint
import ChipEight.Proofs.Machine.MemoryText
import ChipEight.Proofs.Machine.Readings
import ChipEight.Proofs.Machine.RegisterText
import ChipEight.Proofs.Machine.Steps
import ChipEight.Proofs.Machine.Transfers
import ChipEight.Proofs.Machine.Turns
import ChipEight.Proofs.Pattern.Brackets
import ChipEight.Proofs.Pattern.CharSets
import ChipEight.Proofs.Pattern.Groups
import ChipEight.Proofs.Pattern.Languages
import ChipEight.Proofs.Pattern.Occurrence
import ChipEight.Proofs.Pattern.PlainForms
import ChipEight.Proofs.Pattern.PlainTexts
import ChipEight.Proofs.Pattern.Reader
import ChipEight.Proofs.Pattern.Search
import ChipEight.Proofs.Pattern.Sizes
import ChipEight.Proofs.Pattern.Words
import ChipEight.Proofs.Text.Terminal
import ChipEight.Proofs.Text.Utf8
import ChipEight.Proofs.Text.Words
