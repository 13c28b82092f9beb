import Rf4ce.Nv.Refusal
import Rf4ce.Nv.IndexCrc
import Rf4ce.Nv.AntiReplay
import Rf4ce.Ota.BootSwap
import Rf4ce.Os.TaskQueue
import Rf4ce.Audio.Adpcm
import Rf4ce.Audio.DecProc
import Rf4ce.Mac.Phy
import Rf4ce.Os.TimerDeadlines
import Rf4ce.Ota.Client
import Rf4ce.App.KeyRepeat
import Rf4ce.App.TimerHandles
import Rf4ce.Ota.RunningBank
import Rf4ce.Crash.Monitor
import Rf4ce.Ota.FailureFinal
import Rf4ce.Nv.Isolation
import Rf4ce.Os.EvBuffer
import Rf4ce.App.FrameCounter
import Rf4ce.Ota.Reassembly
import Rf4ce.Ota.Integrity
import Rf4ce.Os.EvQueue
import Rf4ce.Mac.Pib
import Rf4ce.Ota.Chunks
import Rf4ce.Ota.VerifyCrc
import Rf4ce.Nv.AnyLength
import Rf4ce.Nv.Cleanup
import Rf4ce.Nv.FailedWrite
import Rf4ce.Nv.SingleVersion
import Rf4ce.Drv.Ir
import Rf4ce.App.QsIr
import Rf4ce.Drv.UsbUart
import Rf4ce.Drv.Keyboard
import Rf4ce.Audio.MicRing
import Rf4ce.Drv.UsbCdc
import Rf4ce.Drv.IrLearn
import Rf4ce.Refine.Wrap
import Rf4ce.Drv.IrWave
import Rf4ce.Nv.BackOff
import Rf4ce.Os.Relocate
import Rf4ce.Audio.Receive
import Rf4ce.App.QsIrData
import Rf4ce.App.EdScan
import Rf4ce.Mac.EnergyDetect
import Rf4ce.Drv.FlashPieces
import Rf4ce.Mac.PibGet
import Rf4ce.Mac.IeeeAddr
import Rf4ce.Drv.IrPulse
import Rf4ce.Common.LinkList
import Rf4ce.Common.Moves
import Rf4ce.Common.CrcPoly
import Rf4ce.Ota.Completion
import Rf4ce.Audio.Playback
import Rf4ce.Nv.Durable
import Rf4ce.App.PairInfo
import Rf4ce.Drv.IrRecord
import Rf4ce.Drv.UsbCtrl
import Rf4ce.Drv.UsbRegs
import Rf4ce.Dongle.Validation
