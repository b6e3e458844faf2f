import EsOdbc.Lib.Utf
import EsOdbc.Fetch.Paging
import EsOdbc.Fetch.Rowset
import EsOdbc.Fetch.Names
import EsOdbc.Formats.Fetch
import EsOdbc.Interval.Sign
import EsOdbc.Interval.Grammar
import EsOdbc.Interval.LiteralAccepted
import EsOdbc.Interval.DurationRoundTrip
import EsOdbc.Dsn.Registry
import EsOdbc.Params.DateTimesKept
import EsOdbc.Params.Floats
import EsOdbc.Params.Quoted
import EsOdbc.Desc.Atomic
import EsOdbc.Desc.GetData
import EsOdbc.Connect.Body
import EsOdbc.Connect.Requests
import EsOdbc.TimeZone
import EsOdbc.Diag.Readers
import EsOdbc.Cursor.Calls
import EsOdbc.Timestamp.Print
import EsOdbc.Params.Markers
import EsOdbc.Targets.Numeric
import EsOdbc.Formats.Lookup
import EsOdbc.Diag.Strings
import EsOdbc.Connect.ErrorAnswer
import EsOdbc.Desc.Resize
import EsOdbc.Fetch.Positions
import EsOdbc.Formats.Bignum
import EsOdbc.TimeZone.Cache
import EsOdbc.Dsn.List00
import EsOdbc.Columns.Failed
import EsOdbc.Columns.Bounds
import EsOdbc.Cursor.Serialize
import EsOdbc.Connect.Catalog
import EsOdbc.Connect.CloudId
import EsOdbc.Connect.Outcome
import EsOdbc.Connect.TypesLoaded
import EsOdbc.Connect.TypeLookup
import EsOdbc.Texts.JsonEscape
import EsOdbc.Params.Strings
import EsOdbc.Texts.LikePattern
import EsOdbc.Texts.Integers
import EsOdbc.Texts.Ascii
import EsOdbc.Texts.HexDump
import EsOdbc.Connect.Version
import EsOdbc.Texts.Scratch
import EsOdbc.Timestamp.Agreement
import EsOdbc.Targets.Text
import EsOdbc.Targets.Kept
import EsOdbc.Targets.Limit
import EsOdbc.Targets.Pieces
import EsOdbc.Cursor.Packings
