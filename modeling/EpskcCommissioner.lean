import EpskcCommissioner.Machine
import EpskcCommissioner.WifiDriver
import EpskcCommissioner.WifiSupervisor
import EpskcCommissioner.WifiOperation
import EpskcCommissioner.WifiTransaction
import EpskcCommissioner.WifiVerdict
import EpskcCommissioner.WifiHold
import EpskcCommissioner.WifiLadder
import EpskcCommissioner.BoundedQueue
import EpskcCommissioner.WorkerJobs
import EpskcCommissioner.WorkerCall
import EpskcCommissioner.ShareScreen
import EpskcCommissioner.ShareStop
import EpskcCommissioner.RestControl
import EpskcCommissioner.MatterBattery
import EpskcCommissioner.MatterPublish
import EpskcCommissioner.RestSwitches
import EpskcCommissioner.LogTail
import EpskcCommissioner.LogTailOrder
import EpskcCommissioner.CachedMemory
import EpskcCommissioner.LogText
import EpskcCommissioner.LogRing
import EpskcCommissioner.LogRingSlots
import EpskcCommissioner.LogRingDevice
import EpskcCommissioner.LogRingNumbers
import EpskcCommissioner.LogRingRunning
import EpskcCommissioner.LogRingRecovery
import EpskcCommissioner.LogRingInit
import EpskcCommissioner.LogRingChains
import EpskcCommissioner.LogRingPrevious
import EpskcCommissioner.Hex
import EpskcCommissioner.ThreadJoin
import EpskcCommissioner.DatasetHex
import EpskcCommissioner.FactoryReset
import EpskcCommissioner.LogTailGaps
import EpskcCommissioner.LogRingCurrent
import EpskcCommissioner.LogRingTasks
import EpskcCommissioner.MeshcopCodec
import EpskcCommissioner.MeshcopFetch
import EpskcCommissioner.Decimal
import EpskcCommissioner.Json
import EpskcCommissioner.Csv
import EpskcCommissioner.BatteryPage
import EpskcCommissioner.UtcTime
import EpskcCommissioner.BatteryRecord
import EpskcCommissioner.BatteryRecordDisk
import EpskcCommissioner.BatteryRecordRuns
import EpskcCommissioner.Paging
import EpskcCommissioner.PowerLog
import EpskcCommissioner.PowerHistory
import EpskcCommissioner.PowerHistoryResponse
import EpskcCommissioner.LogClean
import EpskcCommissioner.LogJson
import EpskcCommissioner.LogPage
import EpskcCommissioner.RestLogs
import EpskcCommissioner.RestLogsPage
import EpskcCommissioner.LogRingServing
import EpskcCommissioner.LogRingReads
import EpskcCommissioner.RestLogsServed
import EpskcCommissioner.Coap
import EpskcCommissioner.CBytes
import EpskcCommissioner.MeshcopPayload
import EpskcCommissioner.MeshcopPetition
import EpskcCommissioner.MeshcopTlvs
import EpskcCommissioner.MeshcopSecrets
import EpskcCommissioner.CString
import EpskcCommissioner.DatasetForms
import EpskcCommissioner.EpskcOptions
import EpskcCommissioner.EpskcGrammar
import EpskcCommissioner.EpskcParser
import EpskcCommissioner.BorderRouterStart
import EpskcCommissioner.RestRoutes
import EpskcCommissioner.ShareRecord
import EpskcCommissioner.SoleHolder
import EpskcCommissioner.UiJobs
import EpskcCommissioner.BorderRouterStarted
import EpskcCommissioner.CBuffer
import EpskcCommissioner.RestQuote
import EpskcCommissioner.RestNode
import EpskcCommissioner.LogRow
import EpskcCommissioner.RestBody
import EpskcCommissioner.Fitting
import EpskcCommissioner.LogChars
import EpskcCommissioner.LogRingPrintable
import EpskcCommissioner.LogRingOwners
import EpskcCommissioner.LogRingVictims
import EpskcCommissioner.LogRingCuts
import EpskcCommissioner.LogCapture
import EpskcCommissioner.LastCells
import EpskcCommissioner.PowerDischarge
import EpskcCommissioner.PowerLogRing
import EpskcCommissioner.PowerDischargeRuns
import EpskcCommissioner.DigitLoops
import EpskcCommissioner.Appendf
import EpskcCommissioner.ThreadActivity
import EpskcCommissioner.FirstOfEach
import EpskcCommissioner.WifiScan
import EpskcCommissioner.MeshcopTxt
import EpskcCommissioner.Topology
import EpskcCommissioner.TopologyRuns
import EpskcCommissioner.TouchUi
import EpskcCommissioner.TouchUiSteps
import EpskcCommissioner.TouchUiConfirm
import EpskcCommissioner.TouchUiQr
import EpskcCommissioner.TouchUiRows
import EpskcCommissioner.TouchUiJoins
import EpskcCommissioner.CameraFrame
import EpskcCommissioner.CameraPipeline
import EpskcCommissioner.ChipLog
import EpskcCommissioner.Durable
import EpskcCommissioner.HostTool
import EpskcCommissioner.MatterWindow
import EpskcCommissioner.MatterWindowRuns
import EpskcCommissioner.ScreenSleep
import EpskcCommissioner.ScreenSleepRuns
import EpskcCommissioner.SettingsRuns
import EpskcCommissioner.TouchUiCodes
import EpskcCommissioner.ConsoleLogs
import EpskcCommissioner.NetworkCard
import EpskcCommissioner.RestToggle
import EpskcCommissioner.DeviceName
import EpskcCommissioner.DeviceNameRuns
import EpskcCommissioner.RouterPreference
import EpskcCommissioner.JoinJob
