import EmbBoard.Support.Runs
import EmbBoard.Support.Ring
import EmbBoard.Support.RunLength
import EmbBoard.Support.Relay
import EmbBoard.Can.Control
import EmbBoard.Can.ReportedMode
import EmbBoard.Can.Queue
import EmbBoard.Can.TxFifo
import EmbBoard.Can.RxFifo
import EmbBoard.Can.TxProgress
import EmbBoard.Can.Handler
import EmbBoard.Can.PreemptFifo
import EmbBoard.Can.Ownership
import EmbBoard.Can.HandlerAccess
import EmbBoard.Can.Isolation
import EmbBoard.Can.Reject
import EmbBoard.Can.Network
import EmbBoard.Can.Demo
import EmbBoard.Wishbone.Timeout
import EmbBoard.Wishbone.Bridge
import EmbBoard.Wishbone.EmptyPage
import EmbBoard.Wishbone.Stability
import EmbBoard.Wishbone.Hang
import EmbBoard.Wishbone.OutputPort
import EmbBoard.Wishbone.Pwm
import EmbBoard.Wishbone.Board
import EmbBoard.Touch.CalibApp
import EmbBoard.Touch.FailedCalibration
import EmbBoard.Touch.Pressure
import EmbBoard.Touch.Cursor
import EmbBoard.Touch.Capture
import EmbBoard.Timer.SoftTimer
import EmbBoard.Timer.Drift
import EmbBoard.Joystick.PressCount
import EmbBoard.Joystick.ShellLoop
import EmbBoard.Spi.Errors
import EmbBoard.Rprintf.ReadBack
import EmbBoard.Support.Canvas
import EmbBoard.Support.Slope
import EmbBoard.Swim.Calls
