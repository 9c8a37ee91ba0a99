import Myrpc.Client.Call
import Myrpc.Client.FanOut
import Myrpc.Client.Retry
import Myrpc.Client.Verdict
import Myrpc.Server.Registry
import Myrpc.Server.Group
import Myrpc.Server.GroupChains
import Myrpc.Server.Context
import Myrpc.Server.ServeConn
import Myrpc.Server.Pipeline
import Myrpc.Server.Answers
import Myrpc.Server.Routes
import Myrpc.Server.Pool
import Myrpc.Codec.Colfer.Header
import Myrpc.Codec.Colfer.RoundTrip
import Myrpc.Codec.Colfer.Unmarshal
import Myrpc.Codec.Colfer.Accept
import Myrpc.Codec.Bson
import Myrpc.Codec.Bson.Stream
import Myrpc.Codec.Jsonrpc2.Batch
