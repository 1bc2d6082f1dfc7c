import Lra.Controller.Pause
import Lra.Server.DriveRace
import Lra.Server.CommandRace
import Lra.Server.SharedBus
import Lra.Usb.Link
import Lra.Usb.RcwsParser
import Lra.Usb.AccRows
import Lra.Usb.PwmTask
import Lra.Buffer.Pairs
import Lra.Memory.Registers
import Lra.Memory.Overlay
import Lra.Bus.RegisterAccess
import Lra.Host.RegisterImage
import Lra.Device.Adxl355
import Lra.Device.Adxl355Cache
import Lra.Number.LittleEndian
import Lra.Usb.PwmCommand
import Lra.Controller.Measure
import Lra.Effect.Drive
import Lra.Number.Binary32
import Lra.Usb.PwmPlay
import Lra.Usb.PwmLap
import Lra.Usb.PwmCancel
import Lra.Usb.PwmSimulation
import Lra.Controller.Cached
import Lra.Server.InStep
import Lra.Search.BinarySearch
import Lra.Search.PriorityQueue
import Lra.Timer.Timer
import Lra.Timer.Expire
import Lra.Timer.Runs
import Lra.Timer.Cancel
import Lra.Timer.Track
import Lra.Bus.I2cObject
import Lra.Server.ClientBytes
import Lra.Usb.DataFiles
import Lra.Usb.DataFileRace
import Lra.Controller.MeasureTask
import Lra.Log.LogUnit
import Lra.Device.Adxl355Codes
import Lra.Host.Flaky
import Lra.Host.DriveFaults
import Lra.Controller.SelectFaults
import Lra.Bus.WriteReports
import Lra.Controller.Calibration
import Lra.Number.Numeral
import Lra.Usb.FileNames
import Lra.Effect.Stateful
import Lra.Usb.UiParser
import Lra.Usb.UiNumbers
import Lra.Usb.UiExceptions
import Lra.Usb.UiFiles
import Lra.Usb.ManualPwm
import Lra.Usb.FftHelper
import Lra.Usb.FileObserver
import Lra.Search.Greedy
import Lra.Bus.InternalAddr
import Lra.Search.Window
import Lra.Usb.FileWindow
import Lra.Number.RunningMean
import Lra.Timer.PreciseSleep
import Lra.Server.RealTime
import Lra.Usb.CsvReader
import Lra.Usb.ReadAhead
import Lra.Usb.CommandFile
import Lra.Usb.NonBlockingInput
import Lra.Timer.Daemon
import Lra.Usb.Recording
