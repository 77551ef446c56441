import RadonMCU.Foundations.Segments
import RadonMCU.Equinios.Logger
import RadonMCU.Equinios.Enqueue
import RadonMCU.Foundations.LineQueue
import RadonMCU.Equinios.Machine
import RadonMCU.Equinios.System
import RadonMCU.Equinios.Conservation
import RadonMCU.Equinios.Calls
import RadonMCU.Equinios.Flush
import RadonMCU.Foundations.LineAccount
import RadonMCU.Equinios.Framing
import RadonMCU.Equinios.Loss
import RadonMCU.Equinios.Interleaving
import RadonMCU.Equinios.Tearing
import RadonMCU.Equinios.Overlap
import RadonMCU.Equinios.Monitor
import RadonMCU.Equinios.SequentialLog
import RadonMCU.Foundations.RealTime
import RadonMCU.Equinios.Linearization
import RadonMCU.Equinios.Filtering
import RadonMCU.Equinios.Locked
import RadonMCU.Equinios.Erasure
import RadonMCU.Equinios.LockDiscipline
import RadonMCU.KnightRiderLight.TimerWait
import RadonMCU.KnightRiderLight.Watchdog
import RadonMCU.Foundations.StickyLatch
import RadonMCU.KnightRiderLight.Timer
import RadonMCU.KnightRiderLight.WaitTime
import RadonMCU.Foundations.IndexRing
import RadonMCU.Foundations.WordBits
import RadonMCU.JtagUart.Device
import RadonMCU.JtagUart.Fast
import RadonMCU.JtagUart.Transmit
import RadonMCU.JtagUart.Receive
import RadonMCU.JtagUart.Wakeup
import RadonMCU.JtagUart.Returns
import RadonMCU.JtagUart.Small
import RadonMCU.Foundations.ShiftArithmetic
import RadonMCU.Nios2.MulDiv
import RadonMCU.Nios2.Exception
import RadonMCU.Equinios.Console
import RadonMCU.RadonHelloWorld.Program
import RadonMCU.RadonHelloWorld.Lights
import RadonMCU.RadonHelloWorld.LogOutput
import RadonMCU.Foundations.LinkedRing
import RadonMCU.Foundations.WrappedClock
import RadonMCU.Hal.Alarm
import RadonMCU.Hal.AlarmRun
import RadonMCU.Foundations.TerminatedText
import RadonMCU.Hal.Files
import RadonMCU.Hal.FileService
import RadonMCU.Hal.FilePool
import RadonMCU.Hal.FilesRun
import RadonMCU.Hal.BoardFiles
import RadonMCU.Foundations.MaskedCode
import RadonMCU.Hal.Interrupts
import RadonMCU.Hal.Dispatch
