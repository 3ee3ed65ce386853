import SmartHome.TransitionRuns
import SmartHome.MachineWords
import SmartHome.CountedCalendar
import SmartHome.RtcDriver
import SmartHome.RtcArithmetic
import SmartHome.RtcRoundTrip
import SmartHome.ForwardCopy
import SmartHome.RunTables
import SmartHome.PoolAllocator
import SmartHome.PoolSearch
import SmartHome.PoolLayout
import SmartHome.PoolReversal
import SmartHome.StrayFrees
import SmartHome.PoolReallocation
import SmartHome.UartReceive
import SmartHome.SsiTags
import SmartHome.ByteStrings
import SmartHome.TouchRegions
import SmartHome.HomePanel
import SmartHome.Mailboxes
import SmartHome.HomeSystem
import SmartHome.MailTraffic
import SmartHome.ModeLabel
import SmartHome.LampLines
import SmartHome.SetTimeEditor
import SmartHome.TouchThread
import SmartHome.TouchPresses
import SmartHome.ModemLink
import SmartHome.ReceivedText
import SmartHome.NotificationDelivery
import SmartHome.TouchFreshness
import SmartHome.HeapRelease
import SmartHome.EthernetLock
import SmartHome.WebCommands
import SmartHome.RtcReadout
import SmartHome.RtcUnixTime
import SmartHome.RtcRefusal
import SmartHome.RtcWeekdays
import SmartHome.SetTimeSessions
import SmartHome.EnteredTimes
import SmartHome.DigitKeys
import SmartHome.ShiftWindows
import SmartHome.IrDecoder
import SmartHome.IrFrames
import SmartHome.IrReception
import SmartHome.IrDecoding
import SmartHome.DecimalText
import SmartHome.StaleFrames
import SmartHome.MessageIndex
import SmartHome.DeleteCycle
import SmartHome.EndlessRuns
import SmartHome.ReaderSurvival
import SmartHome.MessageAnswers
import SmartHome.SensorText
import SmartHome.FormattedText
import SmartHome.QueryParameters
import SmartHome.WordPacking
import SmartHome.PacketSending
import SmartHome.FrameReading
import SmartHome.FrameTransfer
import SmartHome.Dht11Frames
import SmartHome.ExchangeSort
import SmartHome.RunningSums
import SmartHome.TouchSampling
import SmartHome.AdcAverages
import SmartHome.ReceiveIndex
import SmartHome.RtcInterrupt
import SmartHome.EepromStorage
import SmartHome.NumberText
import SmartHome.ErrorSteps
import SmartHome.LineDrawing
import SmartHome.TextBoxes
import SmartHome.GlyphDrawing
import SmartHome.PageProgress
import SmartHome.KernelMailbox
import SmartHome.KernelSemaphore
import SmartHome.KernelMutex
import SmartHome.HeapRuns
import SmartHome.HttpRequests
import SmartHome.SlotTables
import SmartHome.HttpFiles
import SmartHome.HttpServer
import SmartHome.HttpAnswers
import SmartHome.HttpBuffers
import SmartHome.HttpCommands
import SmartHome.HttpOrders
