import Enil.Lib.Machine
import Enil.Lib.Table
import Enil.Lib.Savepoint
import Enil.Sync.Effect
import Enil.Sync.Unread
import Enil.Sync.Replay
import Enil.Sync.Redelivery
import Enil.Sync.FullSync
import Enil.Sync.ServerCount
import Enil.Sse.Cursor
import Enil.Sse.Chunks
import Enil.Line.Sequence
import Enil.Session.Writers
import Enil.Session.Isolation
import Enil.Sync.PartialSync
import Enil.Sync.Decrypting
import Enil.Account.PendingSends
import Enil.Sync.InFull
import Enil.Login.Once
import Enil.Login.Consumed
import Enil.Login.QrLogin
import Enil.Sync.DeliveredMark
import Enil.Sync.ReadMarks
import Enil.Db.FillText
import Enil.Db.ChatDelete
import Enil.Db.Reactions
import Enil.Line.SticonResources
import Enil.Sync.SticonMirror
import Enil.Sync.StatusQueue
import Enil.Sync.KeyCache
import Enil.Worker.Payload
import Enil.Worker.Legy
import Enil.Worker.QrKeys
import Enil.Account.History
import Enil.Account.Lifecycle
import Enil.Account.ReadMarkers
import Enil.Account.MarksAgree
import Enil.Media.Jpeg
import Enil.Media.Png
import Enil.Media.AssetCache
import Enil.Sync.MediaEntry
import Enil.Line.BoxPages
import Enil.Lib.Buffer
import Enil.Sync.Chunks
import Enil.Format.Html
import Enil.Format.Spans
import Enil.Format.TextHtml
import Enil.Format.SentSpans
import Enil.Lib.Cursor
import Enil.Thrift.Basic
import Enil.Thrift.Read
import Enil.Thrift.Bounds
import Enil.Thrift.Hostile
import Enil.Thrift.FieldIds
import Enil.Sync.Roster
import Enil.Lib.Transducer
import Enil.Lib.Script
import Enil.Lib.Latest
import Enil.Format.JsCall
import Enil.Format.Bubble
import Enil.Account.RenderPaths
import Enil.Lib.JsInt
import Enil.Lib.Xxh32
import Enil.Worker.XxHash
import Enil.Format.PickerThumb
import Enil.Lib.Chars
import Enil.Session.IdentityBytes
import Enil.Lib.Keystream
import Enil.Media.FileCrypto
import Enil.Lib.Leb128
import Enil.Lib.Sections
import Enil.Worker.NativeMids
import Enil.Lib.Wasm
import Enil.Worker.MidCheck
import Enil.Lib.Markup
import Enil.Lib.Runs
import Enil.Format.Picker
import Enil.Thrift.Canonical
import Enil.Line.TokenRefresh
import Enil.Line.RefreshJournal
import Enil.Lib.Crew
import Enil.Worker.Post
import Enil.Line.NativePost
import Enil.Line.PostAnswers
import Enil.Line.NativeWire
