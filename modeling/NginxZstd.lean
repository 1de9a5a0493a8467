import NginxZstd.AcceptEncoding.Cursor
import NginxZstd.AcceptEncoding.Isolation
import NginxZstd.AcceptEncoding.Oracle
import NginxZstd.BodyFilter.FirstBuffer
import NginxZstd.BodyFilter.RoundTrip
import NginxZstd.BodyFilter.Termination
import NginxZstd.BodyFilter.Variables
import NginxZstd.Config.Bypass
import NginxZstd.Config.Requests
import NginxZstd.Dcz.Accounting
import NginxZstd.Dcz.Budget
import NginxZstd.Dcz.Descriptor
import NginxZstd.Dcz.Handoff
import NginxZstd.Dcz.Order
import NginxZstd.Dcz.Sha256
import NginxZstd.Dcz.StrictPath
import NginxZstd.HeaderFilter
import NginxZstd.NoTransform
import NginxZstd.Ratio
import NginxZstd.Ring.Safety
import NginxZstd.Service.Transfer
import NginxZstd.Static.Config
import NginxZstd.Static.Directio
import NginxZstd.Static.ErrorWindow
import NginxZstd.Static.FrameRule
import NginxZstd.Static.Handler
import NginxZstd.Static.ReadLoop
import NginxZstd.Static.Serving
import NginxZstd.Static.ShortReads
import NginxZstd.Trained
import NginxZstd.VaryCalls
import NginxZstd.Service.Pipeline
