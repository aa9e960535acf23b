import MrubyMqtt.Atomicity
import MrubyMqtt.ConnectEvents
import MrubyMqtt.FlagAndSlot
import MrubyMqtt.HandlerView
import MrubyMqtt.OneConnection
import MrubyMqtt.Outgoing
import MrubyMqtt.StateLifetime
import MrubyMqtt.Lib.Locking
import MrubyMqtt.Locks
import MrubyMqtt.ConnectOptions
import MrubyMqtt.NotConnected
import MrubyMqtt.NullPointers
import MrubyMqtt.ClassConnect
import MrubyMqtt.HandleUse
import MrubyMqtt.ConnectPacket
import MrubyMqtt.CleanSession
import MrubyMqtt.Lib.Format
import MrubyMqtt.Lib.Reactor
import MrubyMqtt.Handlers
import MrubyMqtt.Eyecatchers
import MrubyMqtt.Terminators
import MrubyMqtt.Reading
import MrubyMqtt.ReadingRefinement
import MrubyMqtt.Writing
import MrubyMqtt.WritingOrder
import MrubyMqtt.Transport
import MrubyMqtt.ExchangeProgress
import MrubyMqtt.CommandQueue
import MrubyMqtt.Lib.ColoredTreeBalance
import MrubyMqtt.Tree
import MrubyMqtt.TreeShape
import MrubyMqtt.HeapFailure
import MrubyMqtt.HeapRefinement
