import EdgeNode.Config.AutoSave
import EdgeNode.Config.CrashSafety
import EdgeNode.Config.Identity
import EdgeNode.Config.Counters
import EdgeNode.Config.Recency
import EdgeNode.Modbus.Bounds
import EdgeNode.Modbus.Replies
import EdgeNode.Mbtcp.MasterMatching
import EdgeNode.Mbtcp.SlaveFraming
import EdgeNode.Mqtt.Framing
import EdgeNode.Mqtt.KeepAlive
import EdgeNode.Mqtt.Delivery
import EdgeNode.Ucs.Transmit
import EdgeNode.Obj.Changes
import EdgeNode.Obj.Debounce
import EdgeNode.Obj.Hysteresis
import EdgeNode.Obj.Satisfied
import EdgeNode.Obj.Interval
import EdgeNode.Obj.Pacing
import EdgeNode.Obj.Statistics
import EdgeNode.Obj.Truthful
import EdgeNode.Obj.Views
import EdgeNode.Obj.EventLinks
import EdgeNode.Obj.Registry
import EdgeNode.Obj.Family
import EdgeNode.Obj.Nesting
import EdgeNode.Obj.RunOnce
import EdgeNode.Log.Restore
import EdgeNode.Timer.Expiry
import EdgeNode.OneWire.Completeness
import EdgeNode.Db.Sectors
import EdgeNode.Db.HeadLog
import EdgeNode.Values.RoundTrip
import EdgeNode.Json.Quantity
import EdgeNode.Ucs.Locks
import EdgeNode.Log.Queue
import EdgeNode.Ucs.RecvQueue
import EdgeNode.Ucs.GetRegs
import EdgeNode.Ucs.SetReg
import EdgeNode.Sys.ListRefinement
import EdgeNode.Obj.Outliving
import EdgeNode.Ucs.Sharing
import EdgeNode.Ucs.Settings
import EdgeNode.Obj.SensorTables
import EdgeNode.Spi.Ownership
import EdgeNode.Obj.UnitContract
import EdgeNode.Config.Walks
import EdgeNode.Config.Composite
import EdgeNode.Modbus.WriteRead
import EdgeNode.Config.Certificates
import EdgeNode.Config.Traps
import EdgeNode.Sys.FixedBuffers
import EdgeNode.Sys.MemCapture
import EdgeNode.Mbtcp.Addressing
import EdgeNode.Mbtcp.Timeout
import EdgeNode.Obj.EltTask
import EdgeNode.Mqtt.Topic
import EdgeNode.Cgi.Query
import EdgeNode.Json.Sizing
import EdgeNode.Values.Equality
import EdgeNode.Obj.Ratio
import EdgeNode.Utils.IpText
import EdgeNode.Sys.Identity
import EdgeNode.Sys.TaskCreation
import EdgeNode.OneWire.Slots
import EdgeNode.Obj.IoexTask
import EdgeNode.Obj.SiouxFrame
import EdgeNode.Obj.SiouxZones
import EdgeNode.Sys.TimeText
import EdgeNode.Obj.Hem1206m
import EdgeNode.Obj.DioNode
import EdgeNode.Obj.ChildConfig
import EdgeNode.Drv.Interrupts
import EdgeNode.Drv.Owners
import EdgeNode.Obj.Rl
import EdgeNode.Db.ReadBack
import EdgeNode.Obj.LoopDelay
import EdgeNode.Timer.Insertion
import EdgeNode.Sys.Mkimage
import EdgeNode.Obj.Ds18b20
import EdgeNode.Mqtt.Requests
import EdgeNode.Mqtt.Wire
import EdgeNode.LoRa.MacCrypto
