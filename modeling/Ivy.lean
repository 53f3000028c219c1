import Ivy.ForStd.KeyStore
import Ivy.ForStd.Memory
import Ivy.ForStd.Mutex
import Ivy.ForStd.Transition
import Ivy.ForStd.CString
import Ivy.ForStd.Tiling
import Ivy.ForStd.BitField
import Ivy.ForStd.CanonicalCode
import Ivy.ForStd.Transducer
import Ivy.ForStd.Dct
import Ivy.Native.MjpegCodec
import Ivy.Native.MjpegDriver
import Ivy.Native.Pipeline
import Ivy.Native.Credentials
import Ivy.Native.DataPoint
import Ivy.Native.NetInterface
import Ivy.Native.Report
import Ivy.Native.IvyAnim
import Ivy.Native.Tkl
import Ivy.Native.TklOta
import Ivy.Native.TklWifi
import Ivy.Native.TklUart
import Ivy.Native.TklPin
import Ivy.Native.WifiScan
import Ivy.Native.MjpegAccess
import Ivy.Native.Clock
import Ivy.Native.JpegDec
import Ivy.Native.UITime
import Ivy.Native.UIProvTip
import Ivy.Native.TklNetwork
import Ivy.Native.WifiConfig
import Ivy.Native.Led
import Ivy.Native.TklMemory
import Ivy.Native.TklTicks
import Ivy.Native.JpegHuffman
import Ivy.Native.JpegVlc
import Ivy.Native.JpegMcu
import Ivy.Native.JpegIdct
import Ivy.Native.JpegScan
import Ivy.Native.JpegPut
import Ivy.Spec.FrameSplit
import Ivy.Spec.ReadWindow
import Ivy.Spec.ReadFrameCorrect
import Ivy.Spec.ReadFrameProgress
import Ivy.Spec.DriverLock
import Ivy.Spec.Playback
import Ivy.Spec.PipelineStep
import Ivy.Spec.PipelineInvariant
import Ivy.Spec.PipelineProgress
import Ivy.Spec.PipelineQuiesce
import Ivy.Spec.PipelineTokens
import Ivy.Spec.PipelineTeardown
import Ivy.Spec.CredentialSync
import Ivy.Spec.CloudMessage
import Ivy.Spec.Provisioning
import Ivy.Spec.LinkStatus
import Ivy.Spec.Reconnect
import Ivy.Spec.AnimBinding
import Ivy.Spec.OtaSession
import Ivy.Spec.WifiEvents
import Ivy.Spec.WifiRadio
import Ivy.Spec.UartPorts
import Ivy.Spec.GpioIrq
import Ivy.Spec.ScanFilter
import Ivy.Spec.ReadAccess
import Ivy.Spec.Leftovers
import Ivy.Spec.FramePacing
import Ivy.Spec.FrameSupply
import Ivy.Spec.SyncedTime
import Ivy.Spec.FailedBind
import Ivy.Spec.JpegTiles
import Ivy.Spec.MessageLoop
import Ivy.Spec.ClockDisplay
import Ivy.Spec.ProvScreen
import Ivy.Spec.BleContext
import Ivy.Spec.ExactReceive
import Ivy.Spec.BlockingMode
import Ivy.Spec.WifiCredentials
import Ivy.Spec.LedBrightness
import Ivy.Spec.ReadBounds
import Ivy.Spec.Allocator
import Ivy.Spec.Timeouts
import Ivy.Spec.HuffmanExpand
import Ivy.Spec.HuffmanLookup
import Ivy.Spec.JpegFilter
import Ivy.Spec.JpegBits
import Ivy.Spec.JpegBlock
import Ivy.Spec.JpegPixels
import Ivy.Spec.JpegWindow
import Ivy.Spec.JpegScan
import Ivy.Spec.JpegColor
import Ivy.Spec.JpegPicture
import Ivy.Spec.JpegBounds
import Ivy.Spec.PlayerCalls
import Ivy.Spec.JpegTransform
import Ivy.Spec.JpegSamples
