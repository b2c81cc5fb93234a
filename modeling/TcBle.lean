import TcBle.Foundation.BubbleSort
import TcBle.Foundation.Bursts
import TcBle.Foundation.Calculation
import TcBle.Foundation.ClampedSum
import TcBle.Foundation.Conflicts
import TcBle.Foundation.Copies
import TcBle.Foundation.Crc
import TcBle.Foundation.CyclicRing
import TcBle.Foundation.Flash
import TcBle.Foundation.FlashLog
import TcBle.Foundation.LinkedList
import TcBle.Foundation.LoggedArray
import TcBle.Foundation.LongArithmetic
import TcBle.Foundation.Lockstep
import TcBle.Foundation.Nibbles
import TcBle.Foundation.RingBuffer
import TcBle.Foundation.Run
import TcBle.Foundation.AccessLog
import TcBle.Foundation.Segments
import TcBle.Foundation.SerialFlash
import TcBle.Foundation.SlidingWindow
import TcBle.Foundation.SlotTable
import TcBle.Foundation.StableOrder
import TcBle.Foundation.Stuffing
import TcBle.Foundation.TimedSlot
import TcBle.Foundation.Timeline
import TcBle.Foundation.Transducer
import TcBle.HciTransport.Common
import TcBle.HciTransport.Dfu
import TcBle.HciTransport.DfuStep
import TcBle.HciTransport.DfuReceived
import TcBle.HciTransport.DfuCleanSlate
import TcBle.HciTransport.DfuImage
import TcBle.HciTransport.DfuCrc
import TcBle.HciTransport.DfuBounds
import TcBle.HciTransport.DfuTx
import TcBle.HciTransport.UartRx
import TcBle.HciTransport.TrH4
import TcBle.HciTransport.H4Reassembly
import TcBle.HciTransport.H4Bounds
import TcBle.HciTransport.Slip
import TcBle.HciTransport.SlipBuffers
import TcBle.HciTransport.TrH5
import TcBle.HciTransport.H5Reassembly
import TcBle.HciTransport.H5Head
import TcBle.HciTransport.H5
import TcBle.HciTransport.H5Net
import TcBle.HciTransport.H5Step
import TcBle.HciTransport.H5Frame
import TcBle.HciTransport.H5Simulation
import TcBle.HciTransport.H5Sequence
import TcBle.HciTransport.H5Integrity
import TcBle.HciTransport.H5Link
import TcBle.HciTransport.H5Transport
import TcBle.HciTransport.H5Recovery
import TcBle.HciTransport.H5SendData
import TcBle.HciTransport.HciRx
import TcBle.Vendor.DeviceManage
import TcBle.Vendor.DeviceTable
import TcBle.Vendor.DeviceLookup
import TcBle.Vendor.DeviceAttHandle
import TcBle.Vendor.SdpStore
import TcBle.Vendor.BltLed
import TcBle.Vendor.CustomPair
import TcBle.Vendor.CustomPairFlash
import TcBle.Vendor.CustomPairAdd
import TcBle.Vendor.SdpDiscovery
import TcBle.Vendor.SdpDiscoveryBounds
import TcBle.Vendor.GattServer
import TcBle.Vendor.SdpAnswers
import TcBle.Vendor.SdpDiscoveryResult
import TcBle.Vendor.SoftTimer
import TcBle.Vendor.SoftTimerWakeup
import TcBle.Vendor.FlashFwCheck
import TcBle.Vendor.MacAddress
import TcBle.Vendor.IrLearn
import TcBle.Vendor.IrLearnBounds
import TcBle.Vendor.IrLearnResult
import TcBle.Vendor.OtaClient
import TcBle.Vendor.OtaClientSegments
import TcBle.Vendor.AppEsl
import TcBle.Vendor.EslLaw
import TcBle.Vendor.AppEslTimed
import TcBle.Vendor.ImageStorage
import TcBle.Vendor.EslClock
import TcBle.Vendor.AppLed
import TcBle.Vendor.EpdDisplay
import TcBle.Vendor.GuiDecStr
import TcBle.Vendor.GuiDisp
import TcBle.Vendor.AppVendorImage
import TcBle.Vendor.EslControlPoint
import TcBle.Vendor.EslBudget
import TcBle.Vendor.EslIndices
import TcBle.Audio.Adpcm
import TcBle.Audio.AdpcmFrame
import TcBle.Audio.AdpcmSession
import TcBle.Audio.AdpcmAccess
import TcBle.Audio.AdpcmAgree
import TcBle.Audio.DonglePlayback
import TcBle.Application.KeyboardGhost
import TcBle.Application.KeyboardScan
import TcBle.Application.UsbControl
import TcBle.Application.UsbControlIn
import TcBle.Application.UsbKb
import TcBle.Application.UsbKbRelease
import TcBle.Application.UsbMouse
import TcBle.Common.Bcopy
import TcBle.Common.Div64
import TcBle.Common.MyFifo
import TcBle.Common.TlQueue
import TcBle.Common.TlQueuePriority
import TcBle.Foundation.Loops
import TcBle.Drivers.Flash
import TcBle.HciTransport.DfuFlash
import TcBle.Vendor.FlashProt
import TcBle.Drivers.Printf
import TcBle.Drivers.PutInt
import TcBle.Drivers.PrintfFormats
import TcBle.Vendor.AppCentralSdp
import TcBle.HciTransport.H5Line
import TcBle.Vendor.FwCheckDfu
import TcBle.Audio.MicToHost
import TcBle.Vendor.RcIrReceived
import TcBle.Vendor.CentralStoresAlone
import TcBle.Vendor.BatteryCheck
