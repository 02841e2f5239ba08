import Microtrust.Lib.Bytes
import Microtrust.Lib.Kernel
import Microtrust.Storage.Interface
import Microtrust.Storage.Files
import Microtrust.Storage.Rpmb
import Microtrust.Storage.Proxy
import Microtrust.Lib.KernelFacts
import Microtrust.Lib.WriteBack
import Microtrust.Storage.Facts
import Microtrust.Storage.Checkpoint
import Microtrust.Storage.Start
import Microtrust.Storage.Step
import Microtrust.Storage.Launch
import Microtrust.Storage.Durable
import Microtrust.Storage.Handles
import Microtrust.Lib.KeySet
import Microtrust.Teec.Api
import Microtrust.Teec.Session
import Microtrust.Teec.Finalize
import Microtrust.Teec.TempRefs
import Microtrust.Gatekeeper.Device
import Microtrust.Gatekeeper.Genuine
import Microtrust.Keymaster.Genuine
import Microtrust.Lib.Reach
import Microtrust.Lite.KeymasterIpc
import Microtrust.Lite.KeymasterPairing
import Microtrust.Lite.Gatekeeper
import Microtrust.Lite.GatekeeperPairing
import Microtrust.Storage.Answer
import Microtrust.Storage.Stale
import Microtrust.Storage.Places
import Microtrust.Storage.Failed
import Microtrust.Storage.Vfs
import Microtrust.Lib.Script
import Microtrust.Lite.Kmsetkey
import Microtrust.Lite.KmsetkeyInstall
import Microtrust.Keybox.ModelInfo
import Microtrust.Keymaster.Connect
import Microtrust.Keymint.Configured
import Microtrust.Keymint.Operation
import Microtrust.Lib.Content
import Microtrust.Storage.Transfers
import Microtrust.Storage.Offsets
import Microtrust.Storage.RpmbCommands
import Microtrust.Lib.Lookup
import Microtrust.Storage.Folders
import Microtrust.Storage.Framing
import Microtrust.Teec.SharedMemory
import Microtrust.Lib.Copy
import Microtrust.Teec.Copies
import Microtrust.Teec.CopyBack
import Microtrust.Teec.Exchange
import Microtrust.Teec.Flow
import Microtrust.Teec.Confined
import Microtrust.Keymaster.OutputCopy
import Microtrust.Gatekeeper.Response
import Microtrust.Lib.Frames
import Microtrust.Lite.KeymasterFrames
import Microtrust.Lite.KeymasterResponse
import Microtrust.Keymaster.KeyParams
import Microtrust.Keymint.DeviceInfo
import Microtrust.Keymint.Device
import Microtrust.Keymint.ServiceCalls
import Microtrust.Keymint.Survival
import Microtrust.Keymint.Ownership
import Microtrust.Keymaster.AuthToken
import Microtrust.Keymaster.KeyDescription
import Microtrust.Keybox.ImportKeybox
import Microtrust.Daemon.TeeiList
import Microtrust.Daemon.PropertyQueue
import Microtrust.Daemon.PropertyTurns
import Microtrust.Daemon.PropertySettings
import Microtrust.Lib.Ring
import Microtrust.Daemon.DriverTable
import Microtrust.Clients.OneCommand
import Microtrust.Clients.ByResults
import Microtrust.Lib.Accounted
import Microtrust.Teec.Accounts
import Microtrust.Lib.FileStore
import Microtrust.Lib.KernelView
import Microtrust.Storage.AsStore
import Microtrust.Storage.ReadBack
import Microtrust.Storage.Confinement
import Microtrust.Lib.Ledger
import Microtrust.Lite.KeymasterDevice
import Microtrust.Lite.KeymasterOperations
import Microtrust.Lite.KeymasterAnswers
import Microtrust.Daemon.LoadTee
