import JeanBot.Lib.Arrays
import JeanBot.Lib.Clock
import JeanBot.Lib.Commands
import JeanBot.Lib.RunLength
import JeanBot.Lib.ShortRuns
import JeanBot.Lib.Transition
import JeanBot.Lib.Structured
import JeanBot.FlagDetection.ColorBands
import JeanBot.FlagDetection.Passes
import JeanBot.FlagDetection.Reference
import JeanBot.FlagDetection.Capacity
import JeanBot.FlagDetection.Detector
import JeanBot.FlagDetection.Background
import JeanBot.FlagDetection.InPlace
import JeanBot.FlagDetection.Invariance
import JeanBot.FlagDetection.Pixels
import JeanBot.FlagDetection.Noise
import JeanBot.Dancing.Songs
import JeanBot.Dancing.Robot
import JeanBot.Dancing.Steps
import JeanBot.Dancing.Invariants
import JeanBot.Dancing.Pause
import JeanBot.Dancing.Stop
import JeanBot.Dancing.Restart
import JeanBot.Dancing.Window
import JeanBot.Dancing.Playback
import JeanBot.Dancing.NoteAccess
import JeanBot.Dancing.Episodes
import JeanBot.Dancing.Bounds
import JeanBot.Dancing.Timing
import JeanBot.Dancing.Tempo
import JeanBot.Dancing.Camera
import JeanBot.Dancing.Melody
import JeanBot.Dancing.Lights
import JeanBot.Dancing.Source
import JeanBot.Dancing.Wheels
import JeanBot.Dancing.Selector
