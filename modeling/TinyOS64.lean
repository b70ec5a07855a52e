import TinyOS64.Lib.Interaction
import TinyOS64.Lib.Contract
import TinyOS64.Lib.Stopping
import TinyOS64.Lib.Counting
import TinyOS64.Lib.ByteMemory
import TinyOS64.Lib.AscendingCopy
import TinyOS64.Lib.Digits
import TinyOS64.Lib.WordFields
import TinyOS64.Lib.RestartedSearch
import TinyOS64.Runtime.MemoryRoutines
import TinyOS64.Print.PutLimitedString
import TinyOS64.Print.Format
import TinyOS64.Print.Reference
import TinyOS64.Print.Numbers
import TinyOS64.Print.Rendering
import TinyOS64.Print.Snprintf
import TinyOS64.Print.FormatString
import TinyOS64.Print.CallCheck
import TinyOS64.Hda.Mmio
import TinyOS64.Hda.Registers
import TinyOS64.Hda.Independence
import TinyOS64.Hda.Widget
import TinyOS64.Hda.StreamFormat
import TinyOS64.Hda.FormatRoundTrip
import TinyOS64.Hda.Stream
import TinyOS64.Hda.Verbs
import TinyOS64.Hda.Scan
import TinyOS64.Hda.Refresh
import TinyOS64.Hda.ConnectionList
import TinyOS64.Hda.InputAmps
import TinyOS64.Hda.Recovery
import TinyOS64.Hda.Table
import TinyOS64.Hda.Settings
import TinyOS64.Hda.Boot
import TinyOS64.Hda.BootSafety
import TinyOS64.Hda.CyclicBuffer
import TinyOS64.Hda.Control
import TinyOS64.Hda.Words
import TinyOS64.Hda.LateResponse
import TinyOS64.Hda.InTime
import TinyOS64.Pci.Config
import TinyOS64.Pci.CommandReg
import TinyOS64.Pci.FindAudio
import TinyOS64.Pci.FirstAudio
import TinyOS64.Pci.Restart
import TinyOS64.Console.Line
import TinyOS64.Console.Console
import TinyOS64.Hda.Dump
import TinyOS64.Console.Commands
import TinyOS64.Console.Grammar
import TinyOS64.Console.LineSafety
import TinyOS64.Console.JackColours
import TinyOS64.Console.Numerals
import TinyOS64.Console.ReadBack
import TinyOS64.Console.NodeCommands
import TinyOS64.Console.Unmute
import TinyOS64.Console.RegisterCommands
import TinyOS64.Console.OutputStream
import TinyOS64.Console.ReadMemory
import TinyOS64.Console.RegisterName
import TinyOS64.Console.StoredText
import TinyOS64.Console.Confinement
import TinyOS64.Console.Session
import TinyOS64.Console.SessionSafety
import TinyOS64.Console.PrintBuffer
import TinyOS64.Console.Amplifiers
import TinyOS64.Console.OnRegisters
import TinyOS64.Main.TextMode
import TinyOS64.Main.Graphics
import TinyOS64.Main.KeyLoop
import TinyOS64.Main.TypedLines
import TinyOS64.Main.AudioBoot
import TinyOS64.Main.AudioBootDefined
import TinyOS64.Main.AudioBootSafety
import TinyOS64.Main.Playback
import TinyOS64.Main.ConfigurationSpace
